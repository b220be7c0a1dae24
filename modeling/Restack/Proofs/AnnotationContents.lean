import Mathlib
import Restack.Proofs.Class.Builder
import Restack.Proofs.Class.Layout
import Restack.Proofs.Lowering.Run

namespace Restack

-- What the tree of a class holds of an annotation is what the annotation says, with entries in place of indices and
-- without the values that class files have no form for.

structure Entries where
  string : UInt32 → String
  type : UInt32 → String
  field : UInt32 → FieldName

namespace Value

mutual

def Resolves (c : Container) (e : Entries) : Value → Prop
  | .string index => c.string index = .ok (e.string index)
  | .type index => c.type index = .ok (e.type index)
  | .enum index => c.field index = .ok (e.field index)
  | .annot index elements => c.type index = .ok (e.type index) ∧ ElementsResolve c e elements
  | .array items => ItemsResolve c e items
  | _ => True

def ItemsResolve (c : Container) (e : Entries) : List Value → Prop
  | [] => True
  | v :: rest => v.Resolves c e ∧ ItemsResolve c e rest

def ElementsResolve (c : Container) (e : Entries) : List (UInt32 × Value) → Prop
  | [] => True
  | (name,v) :: rest => c.string name = .ok (e.string name) ∧ v.Resolves c e ∧ ElementsResolve c e rest

end

end Value

def Annot.Resolves (c : Container) (e : Entries) (a : Annot) : Prop :=
  c.type a.type = .ok (e.type a.type) ∧ Value.ElementsResolve c e a.elements

namespace Element

mutual

def ofValue? (e : Entries) : Value → Option Element
  | .byte v => some (.value (.byte v))
  | .short v => some (.value (.short v))
  | .char v => some (.value (.char v))
  | .int v => some (.value (.int v))
  | .long v => some (.value (.long v))
  | .float bits => some (.value (.float bits))
  | .double bits => some (.value (.double bits))
  | .boolean v => some (.value (.boolean v))
  | .string index => some (.value (.string (e.string index)))
  | .type index => some (.value (.classLiteral (e.type index)))
  | .enum index => some (.enum (e.field index).type (e.field index).name)
  | .annot index elements => some (.annot (e.type index) (ofElements e elements))
  | .array items => some (.array (ofValues e items))
  | .null | .field _ | .method _ | .methodType _ | .methodHandle _ => none

def ofValues (e : Entries) : List Value → List Element
  | [] => []
  | v :: rest => (ofValue? e v).toList ++ ofValues e rest

def ofElements (e : Entries) : List (UInt32 × Value) → List (String × Element)
  | [] => []
  | (name,v) :: rest => ((ofValue? e v).toList.map fun element => (e.string name,element)) ++ ofElements e rest

end

end Element

def AnnotNode.ofAnnot (e : Entries) (a : Annot) : AnnotNode := ⟨e.type a.type,Element.ofElements e a.elements⟩

-- Whether an annotation is shown at run time. Those of the system are no part of the class.
def Visibility.shown? : Visibility → Option Bool
  | .runtime => some true
  | .build => some false
  | .system => none

theorem mapM_answers {f : α → Except Fault β} {P : α → β → Prop} {items : List α} (each : ∀ a ∈ items, ∃ b, f a = .ok b ∧ P a b) :
    ∃ results, items.mapM f = .ok results ∧ List.Forall₂ P items results := by
  induction items with
  | nil => exact ⟨[],rfl,.nil⟩
  | cons first rest ih =>
    obtain ⟨⟨b,found,holds⟩,later⟩ := List.forall_mem_cons.mp each
    obtain ⟨results,done,all⟩ := ih later
    refine ⟨b :: results,?_,.cons holds all⟩
    rw [List.mapM_cons,found,done]
    rfl

variable {c : Container} {e : Entries}

namespace UserAnnot

def declared (e : Entries) (item : AnnotItem) : Option UserAnnot :=
  item.visibility.shown?.map fun visible => ⟨e.type item.annot.type,visible,item.annot⟩

theorem ofItem_declared {item : AnnotItem} (resolves : item.visibility ≠ .system → item.annot.Resolves c e) :
    ofItem c item = .ok (declared e item) := by
  unfold ofItem declared
  cases shown : item.visibility with
  | system => rfl
  | runtime =>
    rw [(resolves (by simp [shown])).1]
    rfl
  | build =>
    rw [(resolves (by simp [shown])).1]
    rfl

theorem ofItems_declared {items : List AnnotItem} (resolves : ∀ item ∈ items, item.visibility ≠ .system → item.annot.Resolves c e) :
    ofItems c items = .ok (items.filterMap (declared e)) := by
  have each : items.mapM (ofItem c) = .ok (items.map (declared e)) :=
    mapM_eq_ok.mpr (List.forall₂_map_right_iff.mpr (List.forall₂_same.mpr fun item member => ofItem_declared (resolves item member)))
  rw [ofItems,each,ok_bind,List.filterMap_map]
  rfl

theorem declared_shown (e : Entries) (items : List AnnotItem) (visible : Bool) :
    ((items.filterMap (declared e)).filter (·.visible = visible)).map (fun user => AnnotNode.ofAnnot e user.annot) =
      (items.filter fun item => item.visibility.shown? = some visible).map fun item => .ofAnnot e item.annot := by
  induction items with
  | nil => rfl
  | cons item rest ih =>
    cases shown : item.visibility.shown? with
    | none => simp [declared,shown,ih]
    | some other => by_cases same : other = visible <;> simp [declared,shown,same,ih]

end UserAnnot

namespace Container

mutual

theorem valueParts_recorded (name : Option String) (value : Value) (resolves : value.Resolves c e) :
    ∃ parts, c.valueParts .everything name value = .ok parts ∧
      parts.map Element.ofPart = (Element.ofValue? e value).toList.map fun element => (name.getD "",element) := by
  cases value with
  | string index =>
    rw [Value.Resolves] at resolves
    rw [valueParts,resolves]
    exact ⟨_,rfl,rfl⟩
  | type index =>
    rw [Value.Resolves] at resolves
    rw [valueParts,resolves]
    exact ⟨_,rfl,rfl⟩
  | enum index =>
    rw [Value.Resolves] at resolves
    rw [valueParts,resolves]
    exact ⟨_,rfl,rfl⟩
  | annot index elements =>
    rw [Value.Resolves] at resolves
    obtain ⟨body,told,recorded⟩ := elementParts_recorded elements resolves.2
    rw [valueParts,resolves.1,told]
    refine ⟨_,rfl,?_⟩
    rw [Element.ofValue?,← recorded]
    rfl
  | array items =>
    rw [Value.Resolves] at resolves
    obtain ⟨body,told,recorded⟩ := itemParts_recorded items resolves
    rw [valueParts,told]
    refine ⟨_,rfl,?_⟩
    rw [Element.ofValue?,← recorded]
    rfl
  | _ => exact ⟨_,rfl,rfl⟩

theorem itemParts_recorded (items : List Value) (resolves : Value.ItemsResolve c e items) :
    ∃ parts, c.itemParts .everything items = .ok parts ∧ Element.ofItemParts parts = Element.ofValues e items := by
  cases items with
  | nil => exact ⟨[],rfl,rfl⟩
  | cons v rest =>
    rw [Value.ItemsResolve] at resolves
    obtain ⟨here,told,first⟩ := valueParts_recorded none v resolves.1
    obtain ⟨others,later,last⟩ := itemParts_recorded rest resolves.2
    rw [Element.ofItemParts_eq] at last
    refine ⟨here ++ others,?_,?_⟩
    · rw [itemParts,told,later]
      rfl
    · rw [Element.ofItemParts_eq,List.map_append,List.map_append,first,last,Element.ofValues]
      simp

theorem elementParts_recorded (elements : List (UInt32 × Value)) (resolves : Value.ElementsResolve c e elements) :
    ∃ parts, c.elementParts .everything elements = .ok parts ∧ Element.ofParts parts = Element.ofElements e elements := by
  cases elements with
  | nil => exact ⟨[],rfl,rfl⟩
  | cons element rest =>
    obtain ⟨name,v⟩ := element
    rw [Value.ElementsResolve] at resolves
    obtain ⟨here,told,first⟩ := valueParts_recorded (some (e.string name)) v resolves.2.1
    obtain ⟨others,later,last⟩ := elementParts_recorded rest resolves.2.2
    rw [Element.ofParts_eq] at last
    refine ⟨here ++ others,?_,?_⟩
    · rw [elementParts,resolves.1,ok_bind,told,later]
      rfl
    · rw [Element.ofParts_eq,List.map_append,first,last,Element.ofElements]
      rfl

end

theorem ofVisibility_recorded {users : List UserAnnot} {annots : List AnnotDescription}
    (told : List.Forall₂ (fun user a => a.visible = user.visible ∧ AnnotNode.ofDescription a = .ofAnnot e user.annot) users annots)
    (visible : Bool) :
    AnnotNode.ofVisibility visible annots = (users.filter (·.visible = visible)).map fun user => .ofAnnot e user.annot := by
  induction told with
  | nil => rfl
  | @cons user a users annots here _ ih =>
    rw [AnnotNode.ofVisibility] at ih ⊢
    by_cases same : user.visible = visible <;> simp [here,same,ih]

theorem describeAnnots_recorded {items : List AnnotItem}
    (resolves : ∀ item ∈ items, item.visibility ≠ .system → item.annot.Resolves c e) :
    ∃ annots, c.describeAnnots .everything true items = .ok annots ∧ ∀ visible, AnnotNode.ofVisibility visible annots =
      (items.filter fun item => item.visibility.shown? = some visible).map fun item => .ofAnnot e item.annot := by
  have each : ∀ user ∈ items.filterMap (UserAnnot.declared e), ∃ a : AnnotDescription,
      (do return { type := user.type, visible := user.visible,
                   body := ← Interest.body true (c.elementParts .everything user.annot.elements) }) =
        Except.ok a ∧ a.visible = user.visible ∧ AnnotNode.ofDescription a = .ofAnnot e user.annot := by
    intro user member
    obtain ⟨item,listed,same⟩ := List.mem_filterMap.mp member
    obtain ⟨visible,shown,rfl⟩ := Option.map_eq_some_iff.mp same
    have declared : item.visibility ≠ .system := by
      intro system
      simp [system,Visibility.shown?] at shown
    obtain ⟨parts,told,recorded⟩ := elementParts_recorded item.annot.elements (resolves item listed declared).2
    refine ⟨⟨_,visible,some parts⟩,?_,rfl,(AnnotNode.ofDescription_eq _).trans (congrArg (AnnotNode.mk _) recorded)⟩
    rw [told]
    rfl
  obtain ⟨annots,told,recorded⟩ := mapM_answers each
  refine ⟨annots,?_,fun visible => ?_⟩
  · rw [describeAnnots,UserAnnot.ofItems_declared resolves,ok_bind]
    exact told
  · rw [ofVisibility_recorded recorded,UserAnnot.declared_shown]

end Container

theorem annotations_carried_over (c : Container) (e : Entries) :
    (∀ a : Annot, a.Resolves c e → ∃ parts, c.elementParts .everything a.elements = .ok parts ∧
      (∀ values, Builder.annot.run values (AnnotPart.listCalls parts) = values ++ Element.ofElements e a.elements) ∧
      ∀ visible, AnnotNode.ofDescription ⟨e.type a.type,visible,some parts⟩ = .ofAnnot e a) ∧
    (∀ items : List Value, Value.ItemsResolve c e items → ∃ parts, c.itemParts .everything items = .ok parts ∧
      ∀ before, Builder.array.run before (AnnotPart.listCalls parts) = before ++ Element.ofValues e items) ∧
    (∀ items : List AnnotItem, (∀ item ∈ items, item.visibility ≠ .system → item.annot.Resolves c e) →
      ∃ annots, c.describeAnnots .everything true items = .ok annots ∧ ∀ visible, AnnotNode.ofVisibility visible annots =
        (items.filter fun item => item.visibility.shown? = some visible).map fun item => .ofAnnot e item.annot) ∧
    ∀ value : Value, value.Resolves c e → ∃ body, c.valueParts .everything none value = .ok body ∧
      (∀ slot, Builder.default.run slot (AnnotPart.listCalls body) = (Element.ofValue? e value).or slot) ∧
      ∀ header parts, (∀ other, MethodPart.default other ∉ parts) →
        (MethodNode.ofDescription header (some (.default (some body) :: parts))).default = Element.ofValue? e value := by
  refine ⟨fun a resolves => ?_,fun items resolves => ?_,fun items resolves => Container.describeAnnots_recorded resolves,
    fun value resolves => ?_⟩
  · obtain ⟨parts,told,recorded⟩ := Container.elementParts_recorded a.elements resolves.2
    refine ⟨parts,told,fun values => ?_,fun visible => ?_⟩
    · rw [Builder.annot_run,recorded]
    · exact (AnnotNode.ofDescription_eq _).trans (congrArg (AnnotNode.mk _) recorded)
  · obtain ⟨parts,told,recorded⟩ := Container.itemParts_recorded items resolves
    refine ⟨parts,told,fun before => ?_⟩
    rw [Builder.array_run,recorded]
  · obtain ⟨body,told,recorded⟩ := Container.valueParts_recorded none value resolves
    have only : Element.ofItemParts body = (Element.ofValue? e value).toList := by
      rw [Element.ofItemParts_eq,recorded]
      simp
    have last : (Element.ofItemParts body).getLast? = Element.ofValue? e value := by
      rw [only]
      cases Element.ofValue? e value <;> rfl
    refine ⟨body,told,fun slot => ?_,fun header parts others => ?_⟩
    · rw [Builder.default_run,last]
    · have none : parts.flatMap MethodNode.defaults = [] := List.flatMap_eq_nil_iff.mpr fun part member => by
        cases part with
        | default other => exact absurd member (others other)
        | _ => rfl
      rw [MethodNode.ofDescription_default,List.flatMap_cons,none,List.append_nil]
      exact last

-- An annotation with values of every kind of omission: a null and a field among the items of arrays, a method type in an
-- annotation of its own, and a method as an element.
def layered : Container := { Lowering.bare with
  strings := #["LA;","LB;","LE;","value","x"]
  types := #[0,1,2]
  fields := #[⟨2,2,4⟩] }

def layeredEntries : Entries where
  string index := if index = 3 then "value" else "x"
  type index := if index = 0 then "LA;" else if index = 1 then "LB;" else "LE;"
  field _ := ⟨"LE;","x","LE;"⟩

def layeredAnnot : Annot :=
  ⟨0,[(3,.array [.null,.string 4,.annot 1 [(4,.type 2),(3,.methodType 7)],.array [.field 9,.int (-5)]]),(4,.enum 0),(3,.method 8)]⟩

def layeredValues : List (String × Element) :=
  [("value",.array [.value (.string "x"),.annot "LB;" [("x",.value (.classLiteral "LE;"))],.array [.value (.int (-5))]]),("x",.enum "LE;" "x")]

theorem annotations_carried_over_layered :
    layeredAnnot.Resolves layered layeredEntries ∧
    (∃ parts, layered.elementParts .everything layeredAnnot.elements = .ok parts ∧
      ∀ values, Builder.annot.run values (AnnotPart.listCalls parts) = values ++ layeredValues) ∧
    (∃ parts, layered.itemParts .everything [.null,.string 4] = .ok parts ∧
      ∀ before, Builder.array.run before (AnnotPart.listCalls parts) = before ++ [.value (.string "x")]) ∧
    (∃ annots, layered.describeAnnots .everything true [⟨.build,⟨1,[]⟩⟩,⟨.runtime,layeredAnnot⟩,⟨.system,⟨99,[]⟩⟩] = .ok annots ∧
      AnnotNode.ofVisibility true annots = [⟨"LA;",layeredValues⟩]) ∧
    ∃ body, layered.valueParts .everything none (.array [.null,.enum 0]) = .ok body ∧ ∀ header,
      (MethodNode.ofDescription header (some [.default (some body)])).default = some (.array [.enum "LE;" "x"]) := by
  have resolves : layeredAnnot.Resolves layered layeredEntries := by
    refine ⟨rfl,?_⟩
    simp only [layeredAnnot,Value.ElementsResolve,Value.ItemsResolve,Value.Resolves]
    exact ⟨rfl,⟨trivial,rfl,⟨rfl,rfl,rfl,rfl,trivial,trivial⟩,⟨trivial,trivial,trivial⟩,trivial⟩,rfl,rfl,rfl,trivial,trivial⟩
  obtain ⟨annotations,arrays,sets,defaults⟩ := annotations_carried_over layered layeredEntries
  refine ⟨resolves,?_,?_,?_,?_⟩
  · obtain ⟨parts,told,recorded,-⟩ := annotations layeredAnnot resolves
    exact ⟨parts,told,recorded⟩
  · exact arrays [.null,.string 4] (by
      simp only [Value.ItemsResolve,Value.Resolves]
      exact ⟨trivial,rfl,trivial⟩)
  · obtain ⟨annots,told,recorded⟩ := sets [⟨.build,⟨1,[]⟩⟩,⟨.runtime,layeredAnnot⟩,⟨.system,⟨99,[]⟩⟩] (by
      simp only [List.forall_mem_cons,List.not_mem_nil,false_implies,implies_true,and_true]
      exact ⟨fun _ => ⟨rfl,by rw [Value.ElementsResolve]; trivial⟩,fun _ => resolves,fun declared => absurd rfl declared⟩)
    exact ⟨annots,told,recorded true⟩
  · obtain ⟨body,told,-,recorded⟩ := defaults (.array [.null,.enum 0]) (by
      simp only [Value.ItemsResolve,Value.Resolves]
      exact ⟨trivial,rfl,trivial⟩)
    exact ⟨body,told,fun header => recorded header [] (by simp)⟩

end Restack
