namespace Restack

inductive MethodPolicy where
  | fail
  | stub
deriving DecidableEq, Repr

namespace MethodPolicy

def name : MethodPolicy → String
  | .fail => "fail"
  | .stub => "stub"

def ofName? : String → Option MethodPolicy
  | "fail" => some .fail
  | "stub" => some .stub
  | _ => none

end MethodPolicy

structure Settings where
  classVersion : UInt16 := 50
  emitDebugInfo : Bool := true
  methodErrors : MethodPolicy := .fail
  archiveEntry : String := "classes.dex"
deriving DecidableEq, Repr

end Restack
