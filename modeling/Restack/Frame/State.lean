import Restack.Stack.Insn

namespace Restack

structure Group where
  id : Nat
deriving DecidableEq, Repr

inductive RegisterState where
  | unknown
  | typed (type : Descriptor)
  -- 32 bits that may be an int, a float or a null reference.
  | open32 (group : Group)
  -- 64 bits that may be a long or a double.
  | open64 (group : Group)
deriving DecidableEq, Repr

namespace RegisterState

def isWide : RegisterState → Bool
  | .typed type => type.isWide
  | .open64 _ => true
  | .unknown | .open32 _ => false

def group? : RegisterState → Option Group
  | .open32 group | .open64 group => some group
  | .unknown | .typed _ => none

def text : RegisterState → String
  | .unknown => "unknown"
  | .typed type => type.text
  | .open32 group => "untyped32#" ++ toString group.id
  | .open64 group => "untyped64#" ++ toString group.id

end RegisterState

end Restack
