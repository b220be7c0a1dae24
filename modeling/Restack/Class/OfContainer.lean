import Restack.Access
import Restack.FaultText
import Restack.Class.Description
import Restack.Class.SystemInfo

namespace Restack.Container

-- Class definitions of a container as descriptions of classes.

mutual

def valueParts (c : Container) (w : Interest) (name : Option String) : Value → Except Fault (List AnnotPart)
  | .byte v => .ok [.value name (.byte v)]
  | .short v => .ok [.value name (.short v)]
  | .char v => .ok [.value name (.char v)]
  | .int v => .ok [.value name (.int v)]
  | .long v => .ok [.value name (.long v)]
  | .float bits => .ok [.value name (.float bits)]
  | .double bits => .ok [.value name (.double bits)]
  | .boolean v => .ok [.value name (.boolean v)]
  | .string index => do return [.value name (.string (← c.string index))]
  | .type index => do return [.value name (.classLiteral (← c.type index))]
  | .enum index => do
    let f ← c.field index
    return [.enum name f.type f.name]
  | .annot index elements => do
    let type ← c.type index
    return [.nested name type (← Interest.body w.nested (elementParts c w elements))]
  | .array items => do return [.array name (← Interest.body w.arrays (itemParts c w items))]
  | .null | .field _ | .method _ | .methodType _ | .methodHandle _ => .ok []

def itemParts (c : Container) (w : Interest) : List Value → Except Fault (List AnnotPart)
  | [] => .ok []
  | v :: rest => do
    let here ← valueParts c w none v
    return here ++ (← itemParts c w rest)

def elementParts (c : Container) (w : Interest) : List (UInt32 × Value) → Except Fault (List AnnotPart)
  | [] => .ok []
  | (index, v) :: rest => do
    let name ← c.string index
    let here ← valueParts c w (some name) v
    return here ++ (← elementParts c w rest)

end

def describeAnnots (c : Container) (w : Interest) (wanted : Bool) (items : List AnnotItem) :
    Except Fault (List AnnotDescription) := do
  (← UserAnnot.ofItems c items).mapM fun a => do
    return { type := a.type, visible := a.visible, body := ← Interest.body wanted (elementParts c w a.annot.elements) }

def fieldValue (c : Container) : Value → Except Fault (Option FieldValue)
  | .byte v => .ok (some (.int v.toInt32))
  | .short v => .ok (some (.int v.toInt32))
  | .char v => .ok (some (.int (Int32.ofNat v.toNat)))
  | .int v => .ok (some (.int v))
  | .boolean v => .ok (some (.int (if v then 1 else 0)))
  | .long v => .ok (some (.long v))
  | .float bits => .ok (some (.float bits))
  | .double bits => .ok (some (.double bits))
  | .string index => do return some (.string (← c.string index))
  | _ => .ok none

def annotsAt (c : Container) (offset : Option UInt32) : Except Fault (List AnnotItem) :=
  match offset with
  | none => .ok []
  | some offset => c.annotSet offset

-- The part of a nested class name after its last dollar sign, unless it is a number or empty.
def simpleName? (name : String) : Option String :=
  let chars := name.toList
  if chars.contains '$' then
    let last := (chars.reverse.takeWhile (· ≠ '$')).reverse
    match last with
    | [] => none
    | first :: _ => if first.isDigit then none else some (String.ofList last)
  else none

def memberClass (c : Container) (name : String) : Except Fault InnerInfo := do
  let own ← match ← c.findClass ("L" ++ name ++ ";") with
    | none => pure none
    | some d => do
      let directory ← c.annotationsDirectory d
      let items ← c.annotsAt (directory.map Directory.classOffset)
      pure (← SystemInfo.ofItems c items).innerClass
  return own.getD { name := simpleName? name, access := 0 }

def describeField (c : Container) (w : Interest) (directory : Option Directory) (entry : FieldEntry)
    (value : Option FieldValue) : Except Fault ClassPart := do
  let f ← c.field entry.field
  let items ← c.annotsAt (directory.bind (·.field? entry.field))
  let info ← SystemInfo.ofItems c items
  let header : FieldHeader :=
    { access := Access.ofField entry.accessFlags, name := f.name, desc := f.type, signature := info.signature, value }
  return .field header (← Interest.body w.fields (c.describeAnnots w w.fieldAnnots items))

def describeFields (c : Container) (w : Interest) (directory : Option Directory) :
    List FieldEntry → List Value → Except Fault (List ClassPart)
  | [], _ => .ok []
  | entry :: entries, values => do
    let value ← match values.head? with
      | none => pure none
      | some v => c.fieldValue v
    let here ← c.describeField w directory entry value
    return here :: (← describeFields c w directory entries values.tail)

def methodCode (c : Container) (settings : Settings) (d : ClassDef) (entry : MethodEntry) (name descriptor : String) :
    Except Fault Code := do
  let owner ← Descriptor.ofText d.descriptor
  let isStatic := Access.has entry.accessFlags.toUInt16 Access.isStatic
  let signature ← MethodDescriptor.ofText descriptor
  let item ← c.codeItem entry.code
  match within (.method d.descriptor name descriptor)
      (Code.ofItem c { owner, isStatic, signature } item d.sourceFile settings) with
  | .ok code => return code
  | .error f => if f.isInexpressible && settings.methodErrors = .stub then return Code.stub f.message else .error f

def methodParts (c : Container) (settings : Settings) (w : Interest) (d : ClassDef) (directory : Option Directory)
    (defaults : Option Annot) (entry : MethodEntry) (name descriptor : String) (items : List AnnotItem) :
    Except Fault (List MethodPart) := do
  let default ← match defaults.bind (·.element? c name) with
    | none => pure []
    | some value => do pure [MethodPart.default (← Interest.body w.defaults (c.valueParts w none value))]
  let annots ← c.describeAnnots w w.methodAnnots items
  let sets ← match directory.bind (·.parameters? entry.method) with
    | none => pure []
    | some offset => c.annotSetList offset
  let parameters ← sets.zipIdx.mapM fun (set, index) => do
    return (← c.describeAnnots w w.parameterAnnots set).map (MethodPart.parameter index)
  let code ←
    if entry.code = 0 then pure []
    else do
      let code ← c.methodCode settings d entry name descriptor
      pure [MethodPart.code (if w.code then some code.parts else none)]
  return default ++ annots.map .annot ++ parameters.flatten ++ code

def describeMethod (c : Container) (settings : Settings) (w : Interest) (d : ClassDef) (directory : Option Directory)
    (defaults : Option Annot) (entry : MethodEntry) : Except Fault ClassPart := do
  let m ← c.method entry.method
  let descriptor := m.proto.descriptor
  let items ← c.annotsAt (directory.bind (·.method? entry.method))
  let info ← SystemInfo.ofItems c items
  let header : MethodHeader :=
    { access := Access.ofMethod entry.accessFlags, name := m.name, desc := descriptor, signature := info.signature,
      exceptions := info.throws }
  let body := c.methodParts settings w d directory defaults entry m.name descriptor items
  return .method header (← Interest.body w.methods body)

-- The outer class of a class that is no member: the method it was declared in, or for an
-- anonymous class without one the class.
def outerClass (info : SystemInfo) : Option OuterClass :=
  match info.enclosingMethod, info.enclosingClass, info.innerClass with
  | some m, _, _ => some ⟨m.owner, some m.name, some m.desc⟩
  | none, some outer, some ⟨none, _⟩ => some ⟨outer, none, none⟩
  | _, _, _ => none

def ownInner (name : String) (info : SystemInfo) : Option InnerClass :=
  info.innerClass.map fun inner =>
    let outerName := if info.enclosingMethod.isNone && inner.name.isSome then info.enclosingClass else none
    { name, outerName, innerName := inner.name, access := inner.access }

def describeMembers (c : Container) (settings : Settings) (w : Interest) (d : ClassDef)
    (directory : Option Directory) (defaults : Option Annot) : Except Fault (List ClassPart) := do
  match ← c.classData d with
  | none => return []
  | some data =>
    let values ← c.staticValues d
    let statics ← c.describeFields w directory data.staticFields values
    let instances ← c.describeFields w directory data.instanceFields []
    let methods ← (data.directMethods ++ data.virtualMethods).mapM (c.describeMethod settings w d directory defaults)
    return statics ++ instances ++ methods

def describe (c : Container) (settings : Settings) (w : Interest) (d : ClassDef) : Except Fault ClassDescription :=
  within (.definition d.descriptor) do
    let directory ← c.annotationsDirectory d
    let items ← c.annotsAt (directory.map Directory.classOffset)
    let info ← SystemInfo.ofItems c items
    let name ← internalNameOf d.descriptor
    let superName ← match d.superclass with
      | none => pure none
      | some descriptor => do pure (some (← internalNameOf descriptor))
    let interfaces ← d.interfaces.mapM internalNameOf
    let annots ← c.describeAnnots w w.classAnnots items
    let members ← info.memberClasses.mapM fun member => do
      let inner ← c.memberClass member
      return ClassPart.inner
        { name := member, outerName := some name, innerName := inner.name, access := inner.access }
    let rest ← c.describeMembers settings w d directory info.defaults
    let header : ClassHeader :=
      { version := settings.classVersion, access := Access.ofClass d.accessFlags, name, signature := info.signature,
        superName, interfaces }
    return {
      header
      parts :=
        d.sourceFile.toList.map .source ++ (outerClass info).toList.map .outer ++ annots.map .annot ++
          (ownInner name info).toList.map .inner ++ members ++ rest }

end Restack.Container
