import Restack.Container.Basic

namespace Restack

def Descriptor.ofText (text : String) : Except Fault Descriptor :=
  match Descriptor.parse? text with
  | some type => .ok type
  | none => reject (.badType text)

def MethodDescriptor.ofText (text : String) : Except Fault MethodDescriptor :=
  match MethodDescriptor.parse? text with
  | some signature => .ok signature
  | none => reject (.badMethodType text)

namespace Container

-- Pool entries as instructions refer to them.

def typeReference (c : Container) (index : UInt32) : Except Fault Descriptor := do
  Descriptor.ofText (← c.type index)

def fieldReference (c : Container) (index : UInt32) : Except Fault FieldReference := do
  let f ← c.field index
  let owner ← Descriptor.ofText f.owner
  let type ← Descriptor.ofText f.type
  return { owner, name := f.name, type }

def methodReference (c : Container) (index : UInt32) : Except Fault MethodReference := do
  let m ← c.method index
  let owner ← Descriptor.ofText m.owner
  let signature ← MethodDescriptor.ofText m.proto.descriptor
  return { owner, name := m.name, signature }

end Container

end Restack
