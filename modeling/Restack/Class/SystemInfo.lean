import Restack.Container.Reference

namespace Restack

-- Containers keep some attributes of class files as annotations of the
-- system; the others are those a program declared.

def internalNameOf (descriptor : String) : Except Fault String := do
  return (← Descriptor.ofText descriptor).internalName

def Annot.element? (a : Annot) (c : Container) (name : String) : Option Value :=
  (a.elements.find? fun element => (c.string element.1).toOption = some name).map Prod.snd

structure UserAnnot where
  type : String
  visible : Bool
  annot : Annot

namespace UserAnnot

def ofItem (c : Container) (item : AnnotItem) : Except Fault (Option UserAnnot) :=
  let declared (visible : Bool) : Except Fault (Option UserAnnot) := do
    return some { type := ← c.type item.annot.type, visible, annot := item.annot }
  match item.visibility with
  | .runtime => declared true
  | .build => declared false
  | .system => .ok none

def ofItems (c : Container) (items : List AnnotItem) : Except Fault (List UserAnnot) := do
  return (← items.mapM (ofItem c)).filterMap id

end UserAnnot

structure InnerInfo where
  name : Option String
  access : UInt16
deriving DecidableEq, Repr

structure SystemInfo where
  signature : Option String := none
  throws : List String := []
  innerClass : Option InnerInfo := none
  enclosingClass : Option String := none
  enclosingMethod : Option MemberRef := none
  memberClasses : List String := []
  defaults : Option Annot := none

namespace SystemInfo

def typeNames (c : Container) : List Value → Except Fault (List String)
  | [] => .ok []
  | .type index :: rest => do
    let name ← internalNameOf (← c.type index)
    return name :: (← typeNames c rest)
  | _ :: rest => typeNames c rest

def listedTypes (c : Container) : Option Value → Except Fault (List String)
  | some (.array items) => typeNames c items
  | _ => .ok []

def joinStrings (c : Container) : List Value → Except Fault String
  | [] => .ok ""
  | .string index :: rest => do
    let piece ← c.string index
    return piece ++ (← joinStrings c rest)
  | _ :: rest => joinStrings c rest

def innerInfo (c : Container) (a : Annot) : Except Fault InnerInfo := do
  let name ← match a.element? c "name" with
    | some (.string index) => do pure (some (← c.string index))
    | _ => pure none
  let access := match a.element? c "accessFlags" with
    | some (.int flags) => flags.toUInt32.toUInt16
    | _ => 0
  return { name, access }

def add (s : SystemInfo) (c : Container) (a : Annot) : Except Fault SystemInfo := do
  let value := a.element? c "value"
  match ← c.type a.type with
  | "Ldalvik/annotation/Signature;" =>
    match value with
    | some (.array pieces) => return { s with signature := some (← joinStrings c pieces) }
    | _ => return s
  | "Ldalvik/annotation/Throws;" => return { s with throws := ← listedTypes c value }
  | "Ldalvik/annotation/MemberClasses;" => return { s with memberClasses := ← listedTypes c value }
  | "Ldalvik/annotation/InnerClass;" => return { s with innerClass := some (← innerInfo c a) }
  | "Ldalvik/annotation/EnclosingClass;" =>
    match value with
    | some (.type index) => return { s with enclosingClass := some (← internalNameOf (← c.type index)) }
    | _ => return s
  | "Ldalvik/annotation/EnclosingMethod;" =>
    match value with
    | some (.method index) =>
      let m ← c.method index
      return { s with enclosingMethod := some ⟨← internalNameOf m.owner, m.name, m.proto.descriptor⟩ }
    | _ => return s
  | "Ldalvik/annotation/AnnotationDefault;" => return { s with defaults := value.bind Value.annot? }
  | _ => return s

def ofItems (c : Container) (items : List AnnotItem) : Except Fault SystemInfo :=
  (items.filter fun item => item.visibility = .system).foldlM (fun s item => s.add c item.annot) {}

end SystemInfo

end Restack
