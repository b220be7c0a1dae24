import Restack.Class.Builder

namespace Restack

-- Classes as trees. A tree can be built from any description, and describes
-- itself again; annotations meant for different readers are kept apart in it.

structure AnnotNode where
  type : String
  values : List (String × Element)

namespace Element

mutual

def part (w : Interest) (name : Option String) : Element → AnnotPart
  | .value leaf => .value name leaf
  | .enum type constant => .enum name type constant
  | .annot type values => .nested name type (if w.nested then some (namedParts w values) else none)
  | .array items => .array name (if w.arrays then some (itemParts w items) else none)

def namedParts (w : Interest) : List (String × Element) → List AnnotPart
  | [] => []
  | (name, element) :: rest => part w (some name) element :: namedParts w rest

def itemParts (w : Interest) : List Element → List AnnotPart
  | [] => []
  | element :: rest => part w none element :: itemParts w rest

end

end Element

namespace AnnotNode

def value? (a : AnnotNode) (name : String) : Option Element := List.lookup name a.values

def ofDescription (a : AnnotDescription) : AnnotNode := ⟨a.type, Builder.annot.run [] (AnnotPart.bodyCalls a.body)⟩

def describe (a : AnnotNode) (w : Interest) (wanted visible : Bool) : AnnotDescription :=
  { type := a.type, visible, body := if wanted then some (Element.namedParts w a.values) else none }

def ofVisibility (visible : Bool) (annots : List AnnotDescription) : List AnnotNode :=
  (annots.filter fun a => a.visible = visible).map ofDescription

end AnnotNode

structure FieldNode where
  header : FieldHeader
  visible : List AnnotNode
  invisible : List AnnotNode

structure MethodNode where
  header : MethodHeader
  default : Option Element
  visible : List AnnotNode
  invisible : List AnnotNode
  parameters : List (Nat × AnnotNode × Bool)
  code : Option Code

structure ClassNode where
  header : ClassHeader
  source : Option String
  outer : Option OuterClass
  inner : List InnerClass
  visible : List AnnotNode
  invisible : List AnnotNode
  fields : List FieldNode
  methods : List MethodNode

def describeAnnots (w : Interest) (wanted : Bool) (visible invisible : List AnnotNode) : List AnnotDescription :=
  visible.map (·.describe w wanted true) ++ invisible.map (·.describe w wanted false)

namespace FieldNode

def ofDescription (header : FieldHeader) (annots : Option (List AnnotDescription)) : FieldNode :=
  let annots := annots.getD []
  { header, visible := AnnotNode.ofVisibility true annots, invisible := AnnotNode.ofVisibility false annots }

def describe (f : FieldNode) (w : Interest) : ClassPart :=
  .field f.header (if w.fields then some (describeAnnots w w.fieldAnnots f.visible f.invisible) else none)

end FieldNode

namespace MethodNode

def annot? : MethodPart → Option AnnotDescription
  | .annot a => some a
  | _ => none

def parameter? : MethodPart → Option (Nat × AnnotNode × Bool)
  | .parameter index a => some (index, .ofDescription a, a.visible)
  | _ => none

def recordDefault (slot : Option Element) : MethodPart → Option Element
  | .default body => Builder.default.run slot (AnnotPart.bodyCalls body)
  | _ => slot

def code? : MethodPart → Option Code
  | .code body => some (Code.ofParts (body.getD []))
  | _ => none

-- Of several default values or bodies the last one counts.
def ofDescription (header : MethodHeader) (body : Option (List MethodPart)) : MethodNode :=
  let parts := body.getD []
  let annots := parts.filterMap annot?
  { header
    default := parts.foldl recordDefault none
    visible := AnnotNode.ofVisibility true annots
    invisible := AnnotNode.ofVisibility false annots
    parameters := parts.filterMap parameter?
    code := (parts.filterMap code?).getLast? }

def parts (m : MethodNode) (w : Interest) : List MethodPart :=
  let default := m.default.toList.map fun element =>
    MethodPart.default (if w.defaults then some (Element.itemParts w [element]) else none)
  let annots := (describeAnnots w w.methodAnnots m.visible m.invisible).map MethodPart.annot
  let parameters := m.parameters.map fun (index, a, visible) =>
    MethodPart.parameter index (a.describe w w.parameterAnnots visible)
  let code := m.code.toList.map fun code => MethodPart.code (if w.code then some code.parts else none)
  default ++ annots ++ parameters ++ code

def describe (m : MethodNode) (w : Interest) : ClassPart :=
  .method m.header (if w.methods then some (m.parts w) else none)

end MethodNode

namespace ClassNode

def source? : ClassPart → Option String
  | .source file => some file
  | _ => none

def outer? : ClassPart → Option OuterClass
  | .outer outer => some outer
  | _ => none

def inner? : ClassPart → Option InnerClass
  | .inner inner => some inner
  | _ => none

def annot? : ClassPart → Option AnnotDescription
  | .annot a => some a
  | _ => none

def field? : ClassPart → Option FieldNode
  | .field header annots => some (.ofDescription header annots)
  | _ => none

def method? : ClassPart → Option MethodNode
  | .method header body => some (.ofDescription header body)
  | _ => none

def ofDescription (d : ClassDescription) : ClassNode :=
  let annots := d.parts.filterMap annot?
  { header := d.header
    source := (d.parts.filterMap source?).getLast?
    outer := (d.parts.filterMap outer?).getLast?
    inner := d.parts.filterMap inner?
    visible := AnnotNode.ofVisibility true annots
    invisible := AnnotNode.ofVisibility false annots
    fields := d.parts.filterMap field?
    methods := d.parts.filterMap method? }

def describe (c : ClassNode) (w : Interest) : ClassDescription where
  header := c.header
  parts :=
    c.source.toList.map .source ++ c.outer.toList.map .outer ++
      (describeAnnots w w.classAnnots c.visible c.invisible).map .annot ++ c.inner.map .inner ++
      c.fields.map (·.describe w) ++ c.methods.map (·.describe w)

def findField (c : ClassNode) (name : String) : Option FieldNode := c.fields.find? fun f => f.header.name = name

def findMethod (c : ClassNode) (name desc : String) : Option MethodNode :=
  c.methods.find? fun m => m.header.name = name && m.header.desc = desc

end ClassNode

end Restack
