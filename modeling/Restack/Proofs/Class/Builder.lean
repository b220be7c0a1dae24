import Mathlib.Data.List.Basic
import Restack.Class.Node

namespace Restack

-- A whole sequence of calls to a builder, children and their children included, has the effect of appending the elements
-- that the parts are by plain recursion.

namespace Element

mutual

def ofPart : AnnotPart → String × Element
  | .value name leaf => (name.getD "",.value leaf)
  | .enum name type constant => (name.getD "",.enum type constant)
  | .nested name type body => (name.getD "",.annot type (ofBody body))
  | .array name items => (name.getD "",.array (ofItems items))

def ofBody : Option (List AnnotPart) → List (String × Element)
  | none => []
  | some parts => ofParts parts

def ofParts : List AnnotPart → List (String × Element)
  | [] => []
  | part :: rest => ofPart part :: ofParts rest

def ofItems : Option (List AnnotPart) → List Element
  | none => []
  | some parts => ofItemParts parts

def ofItemParts : List AnnotPart → List Element
  | [] => []
  | part :: rest => (ofPart part).2 :: ofItemParts rest

end

theorem ofParts_eq (parts : List AnnotPart) : ofParts parts = parts.map ofPart := by
  induction parts with
  | nil => rfl
  | cons first rest ih => rw [ofParts,ih,List.map_cons]

theorem ofItemParts_eq (parts : List AnnotPart) : ofItemParts parts = (parts.map ofPart).map Prod.snd := by
  induction parts with
  | nil => rfl
  | cons first rest ih => rw [ofItemParts,ih,List.map_cons,List.map_cons]

theorem put_put (depth : Nat) (name outer : Option String) (new made element : Element) :
    put (depth + 1) name new (put depth outer made element) = put depth outer (put 0 name new made) element := by
  induction depth generalizing element with
  | zero =>
    cases element with
    | annot type values => exact congrArg (Element.annot type) (Builder.annot.onLast_push _ _ _ _)
    | array items => exact congrArg Element.array (Builder.array.onLast_push _ _ _ _)
    | _ => rfl
  | succ depth ih =>
    have same : put (depth + 1) name new ∘ put depth outer made = put depth outer (put 0 name new made) := funext ih
    cases element with
    | annot type values => exact congrArg (Element.annot type) ((Builder.annot.onLast_onLast _ _ _).trans (by rw [same]))
    | array items => exact congrArg Element.array ((Builder.array.onLast_onLast _ _ _).trans (by rw [same]))
    | _ => rfl

end Element

def AnnotPart.name : AnnotPart → Option String
  | .value name _ | .enum name _ _ | .nested name _ _ | .array name _ => name

theorem AnnotPart.ofPart_name (part : AnnotPart) : Element.ofPart part = (part.name.getD "",(Element.ofPart part).2) := by
  cases part <;> rfl

namespace Builder

variable {σ : Type} {b : Builder σ}

theorem put_put (depth : Nat) (name outer : Option String) (new made : Element) (s : σ) :
    b.put (depth + 1) name new (b.put depth outer made s) = b.put depth outer (Element.put 0 name new made) s := by
  cases depth with
  | zero => exact b.onLast_push _ _ _ _
  | succ depth =>
    have same : Element.put (depth + 1) name new ∘ Element.put depth outer made = Element.put depth outer (Element.put 0 name new made) :=
      funext (Element.put_put depth name outer new made)
    exact (b.onLast_onLast _ _ _).trans (by rw [same]; rfl)

-- The parts one after the other, each as the element that it is.
def record (b : Builder σ) (depth : Nat) (s : σ) (part : AnnotPart) : σ := b.put depth part.name (Element.ofPart part).2 s

theorem record_annot (depth : Nat) (name : Option String) (type : String) (values : List (String × Element)) (parts : List AnnotPart) (s : σ) :
    parts.foldl (b.record (depth + 1)) (b.put depth name (.annot type values) s) =
      b.put depth name (.annot type (values ++ Element.ofParts parts)) s := by
  induction parts generalizing values with
  | nil => rw [Element.ofParts,List.append_nil,List.foldl_nil]
  | cons part rest ih =>
    have first : b.record (depth + 1) (b.put depth name (.annot type values) s) part =
        b.put depth name (.annot type (values ++ [Element.ofPart part])) s := by
      rw [record,put_put,part.ofPart_name]
      rfl
    rw [List.foldl_cons,first,ih,Element.ofParts,List.append_assoc,List.singleton_append]

theorem record_array (depth : Nat) (name : Option String) (items : List Element) (parts : List AnnotPart) (s : σ) :
    parts.foldl (b.record (depth + 1)) (b.put depth name (.array items) s) =
      b.put depth name (.array (items ++ Element.ofItemParts parts)) s := by
  induction parts generalizing items with
  | nil => rw [Element.ofItemParts,List.append_nil,List.foldl_nil]
  | cons part rest ih =>
    have first : b.record (depth + 1) (b.put depth name (.array items) s) part =
        b.put depth name (.array (items ++ [(Element.ofPart part).2])) s := by
      rw [record,put_put]
      rfl
    rw [List.foldl_cons,first,ih,Element.ofItemParts,List.append_assoc,List.singleton_append]

mutual

theorem foldl_calls (part : AnnotPart) (s : σ) (depth : Nat) :
    part.calls.foldl b.step (s,depth) = (b.record depth s part,depth) := by
  cases part with
  | value name leaf => rfl
  | enum name type constant => rfl
  | nested name type body =>
    rw [AnnotPart.calls,List.foldl_cons,List.foldl_append]
    cases body with
    | none => rfl
    | some parts =>
      rw [AnnotPart.bodyCalls,step,foldl_listCalls parts,record_annot]
      rfl
  | array name items =>
    rw [AnnotPart.calls,List.foldl_cons,List.foldl_append]
    cases items with
    | none => rfl
    | some parts =>
      rw [AnnotPart.bodyCalls,step,foldl_listCalls parts,record_array]
      rfl

theorem foldl_listCalls (parts : List AnnotPart) (s : σ) (depth : Nat) :
    (AnnotPart.listCalls parts).foldl b.step (s,depth) = (parts.foldl (b.record depth) s,depth) := by
  cases parts with
  | nil => rfl
  | cons part rest => rw [AnnotPart.listCalls,List.foldl_append,foldl_calls part,foldl_listCalls rest,List.foldl_cons]

end

theorem annot_run (values : List (String × Element)) (parts : List AnnotPart) :
    annot.run values (AnnotPart.listCalls parts) = values ++ Element.ofParts parts := by
  rw [run,foldl_listCalls]
  change parts.foldl (annot.record 0) values = _
  induction parts generalizing values with
  | nil => exact (List.append_nil values).symm
  | cons part rest ih =>
    rw [List.foldl_cons,ih,Element.ofParts,part.ofPart_name]
    exact List.append_assoc values _ _

theorem array_run (items : List Element) (parts : List AnnotPart) :
    array.run items (AnnotPart.listCalls parts) = items ++ Element.ofItemParts parts := by
  rw [run,foldl_listCalls]
  change parts.foldl (array.record 0) items = _
  induction parts generalizing items with
  | nil => exact (List.append_nil items).symm
  | cons part rest ih =>
    rw [List.foldl_cons,ih,Element.ofItemParts]
    exact List.append_assoc items _ _

theorem default_run (slot : Option Element) (parts : List AnnotPart) :
    default.run slot (AnnotPart.listCalls parts) = (Element.ofItemParts parts).getLast?.or slot := by
  rw [run,foldl_listCalls]
  change parts.foldl (default.record 0) slot = _
  induction parts generalizing slot with
  | nil => rfl
  | cons part rest ih =>
    rw [List.foldl_cons,ih,Element.ofItemParts,List.getLast?_cons]
    cases (Element.ofItemParts rest).getLast? <;> rfl

end Builder

theorem AnnotNode.ofDescription_eq (a : AnnotDescription) : ofDescription a = ⟨a.type,Element.ofBody a.body⟩ := by
  rw [ofDescription]
  cases a.body with
  | none => rfl
  | some parts => rw [AnnotPart.bodyCalls,Builder.annot_run,List.nil_append,Element.ofBody]

namespace MethodNode

def defaults : MethodPart → List Element
  | .default body => Element.ofItems body
  | _ => []

theorem recordDefault_eq (slot : Option Element) (part : MethodPart) : recordDefault slot part = (defaults part).getLast?.or slot := by
  cases part with
  | default body =>
    cases body with
    | none => rfl
    | some parts => exact Builder.default_run slot parts
  | _ => rfl

theorem foldl_recordDefault (slot : Option Element) (parts : List MethodPart) :
    parts.foldl recordDefault slot = (parts.flatMap defaults).getLast?.or slot := by
  induction parts generalizing slot with
  | nil => rfl
  | cons part rest ih =>
    rw [List.foldl_cons,ih,recordDefault_eq,List.flatMap_cons,List.getLast?_append,Option.or_assoc]

theorem ofDescription_default (header : MethodHeader) (parts : List MethodPart) :
    (ofDescription header (some parts)).default = (parts.flatMap defaults).getLast? :=
  (foldl_recordDefault none parts).trans Option.or_none

end MethodNode

end Restack
