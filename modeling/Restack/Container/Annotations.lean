import Restack.Container.Value

namespace Restack

inductive Visibility where
  | build | runtime | system
deriving DecidableEq, Repr

namespace Visibility

def name : Visibility → String
  | .build => "build"
  | .runtime => "runtime"
  | .system => "system"

def ofByte (value : UInt8) : Except Fault Visibility :=
  match value.toNat with
  | 0 => .ok .build
  | 1 => .ok .runtime
  | 2 => .ok .system
  | n => reject (.unknownVisibility n)

end Visibility

structure AnnotItem where
  visibility : Visibility
  annot : Annot

def AnnotItem.read : Reader AnnotItem := do
  let visibility ← Visibility.ofByte (← Reader.u1)
  let annot ← Annot.read
  return ⟨visibility, annot⟩

def readOffsets : Reader (List UInt32) := do
  let count ← Reader.u4
  let start ← Reader.offset
  let available ← Reader.size
  if available < start + count.toNat * 4 then
    (reject (.offsetsPastEnd count.toNat start) : Except Fault Unit)
  Reader.times count.toNat Reader.u4

structure MemberRow where
  member : UInt32
  offset : UInt32
deriving DecidableEq, Repr

def MemberRow.read : Reader MemberRow := do
  let member ← Reader.u4
  let offset ← Reader.u4
  return ⟨member, offset⟩

structure Directory where
  classOffset : UInt32
  fields : List MemberRow
  methods : List MemberRow
  parameters : List MemberRow
deriving DecidableEq, Repr

namespace Directory

def read : Reader Directory := do
  let start ← Reader.offset
  let classOffset ← Reader.u4
  let fields ← Reader.u4
  let methods ← Reader.u4
  let parameters ← Reader.u4
  let rows ← Reader.offset
  let available ← Reader.size
  if available < rows + (fields.toNat + methods.toNat + parameters.toNat) * 8 then
    (reject (.directoryPastEnd start) : Except Fault Unit)
  let fields ← Reader.times fields.toNat MemberRow.read
  let methods ← Reader.times methods.toNat MemberRow.read
  let parameters ← Reader.times parameters.toNat MemberRow.read
  return { classOffset, fields, methods, parameters }

-- The offset in the first row of a member; zero there means none.
def find (rows : List MemberRow) (member : UInt32) : Option UInt32 :=
  ((rows.find? fun row => row.member = member).map MemberRow.offset).filter (· ≠ 0)

def field? (d : Directory) (index : UInt32) : Option UInt32 := find d.fields index

def method? (d : Directory) (index : UInt32) : Option UInt32 := find d.methods index

def parameters? (d : Directory) (index : UInt32) : Option UInt32 := find d.parameters index

end Directory

end Restack
