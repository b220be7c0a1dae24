import Restack.Bytes.Reader

namespace Restack

structure FieldEntry where
  field : UInt32
  accessFlags : UInt32
deriving DecidableEq, Repr

structure MethodEntry where
  method : UInt32
  accessFlags : UInt32
  code : UInt32
deriving DecidableEq, Repr

structure ClassData where
  staticFields : List FieldEntry
  instanceFields : List FieldEntry
  directMethods : List MethodEntry
  virtualMethods : List MethodEntry
deriving DecidableEq, Repr

namespace ClassData

-- Each index is stored as the difference to the one before it in its list.

def readFields : Nat → UInt32 → Reader (List FieldEntry)
  | 0, _ => Reader.pure []
  | count + 1, previous => do
    let field := previous + (← Reader.uleb128)
    let accessFlags ← Reader.uleb128
    let rest ← readFields count field
    return ⟨field, accessFlags⟩ :: rest

def readMethods : Nat → UInt32 → Reader (List MethodEntry)
  | 0, _ => Reader.pure []
  | count + 1, previous => do
    let method := previous + (← Reader.uleb128)
    let accessFlags ← Reader.uleb128
    let code ← Reader.uleb128
    let rest ← readMethods count method
    return ⟨method, accessFlags, code⟩ :: rest

def read : Reader ClassData := do
  let staticFields ← Reader.uleb128
  let instanceFields ← Reader.uleb128
  let directMethods ← Reader.uleb128
  let virtualMethods ← Reader.uleb128
  let staticFields ← readFields staticFields.toNat 0
  let instanceFields ← readFields instanceFields.toNat 0
  let directMethods ← readMethods directMethods.toNat 0
  let virtualMethods ← readMethods virtualMethods.toNat 0
  return { staticFields, instanceFields, directMethods, virtualMethods }

end ClassData

end Restack
