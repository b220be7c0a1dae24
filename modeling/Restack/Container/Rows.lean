import Restack.Bytes.Reader

namespace Restack

-- Rows of the id tables. Everything in them is an index into another table or
-- an offset into the file.

structure ProtoRow where
  shorty : UInt32
  result : UInt32
  parameters : UInt32
deriving DecidableEq, Repr

def ProtoRow.read : Reader ProtoRow := do
  let shorty ← Reader.u4
  let result ← Reader.u4
  let parameters ← Reader.u4
  return ⟨shorty, result, parameters⟩

structure FieldRow where
  owner : UInt16
  type : UInt16
  name : UInt32
deriving DecidableEq, Repr

def FieldRow.read : Reader FieldRow := do
  let owner ← Reader.u2
  let type ← Reader.u2
  let name ← Reader.u4
  return ⟨owner, type, name⟩

structure MethodRow where
  owner : UInt16
  proto : UInt16
  name : UInt32
deriving DecidableEq, Repr

def MethodRow.read : Reader MethodRow := do
  let owner ← Reader.u2
  let proto ← Reader.u2
  let name ← Reader.u4
  return ⟨owner, proto, name⟩

structure ClassRow where
  type : UInt32
  accessFlags : UInt32
  superclass : UInt32
  interfaces : UInt32
  sourceFile : UInt32
  annotations : UInt32
  classData : UInt32
  staticValues : UInt32
deriving DecidableEq, Repr

def ClassRow.read : Reader ClassRow := do
  let type ← Reader.u4
  let accessFlags ← Reader.u4
  let superclass ← Reader.u4
  let interfaces ← Reader.u4
  let sourceFile ← Reader.u4
  let annotations ← Reader.u4
  let classData ← Reader.u4
  let staticValues ← Reader.u4
  return { type, accessFlags, superclass, interfaces, sourceFile, annotations, classData, staticValues }

def noIndex : UInt32 := 0xffffffff

def optionalIndex (index : UInt32) : Option UInt32 := if index = noIndex then none else some index

end Restack
