import Restack.Bytes.Reader
import Restack.Text.CodePage
import Restack.Text.Replacement

namespace Restack

structure ArchiveEntry where
  name : String
  rawName : List UInt8
  comment : String
  flags : UInt16
  packing : UInt16
  locked : Bool := false
  crc : UInt32
  size : Nat
  fullSize : Nat
  header : Nat
deriving DecidableEq, Repr

namespace ArchiveEntry

def isEncrypted (e : ArchiveEntry) : Bool := e.flags &&& 1 ≠ 0

def isStored (e : ArchiveEntry) : Bool := !e.isEncrypted && !e.locked && e.packing = 0

def decodeText (flags : UInt16) (bytes : List UInt8) : String :=
  if flags &&& 0x0800 ≠ 0 then String.ofList (Text.decodeReplacing bytes) else Text.decodeCodePage bytes

end ArchiveEntry

end Restack
