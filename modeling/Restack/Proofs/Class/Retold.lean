import Mathlib
import Restack.Proofs.Class.Builder
import Restack.Proofs.MethodPolicies

namespace Restack

-- A description that is recorded as a tree, and told again by the tree. The tree keeps visible annotations apart from
-- the others and has no default without a value; all else comes back where it was.

-- Whether one item may stand right before another: no visible one is told behind one that is not.
def MayPrecede (visible? : α → Option Bool) (a b : α) : Prop := visible? a = some false → visible? b ≠ some true

instance (visible? : α → Option Bool) : DecidableRel (MayPrecede visible?) :=
  fun a b => inferInstanceAs (Decidable (visible? a = some false → visible? b ≠ some true))

-- Every run of items with a visibility, the visible ones first.
def visibleFirst (visible? : α → Option Bool) (items : List α) : List α := items.insertionSort (MayPrecede visible?)

section

variable {visible? : α → Option Bool} {front run back items : List α} {a b : α}

theorem mayPrecede_any (plain : visible? a ≠ some false) : MayPrecede visible? a b := fun hidden => absurd hidden plain

theorem any_mayPrecede (plain : visible? b ≠ some true) : MayPrecede visible? a b := fun _ => plain

theorem visibleFirst_front (plain : ∀ a ∈ front, visible? a ≠ some false) :
    visibleFirst visible? (front ++ run) = front ++ visibleFirst visible? run := by
  induction front with
  | nil => rfl
  | cons first rest ih =>
    obtain ⟨here,others⟩ := List.forall_mem_cons.mp plain
    rw [visibleFirst] at ih ⊢
    rw [List.cons_append,List.insertionSort_cons_of_forall_rel _ fun _ _ => mayPrecede_any here,ih others,List.cons_append]

theorem orderedInsert_stays (plain : ∀ b ∈ back, visible? b ≠ some true) :
    back.orderedInsert (MayPrecede visible?) a = a :: back := by
  cases back with
  | nil => rfl
  | cons next rest => exact List.orderedInsert_cons_of_le _ _ (any_mayPrecede (plain next List.mem_cons_self))

theorem orderedInsert_passes (hidden : visible? a = some false) (shown : ∀ b ∈ run, visible? b = some true) :
    (run ++ back).orderedInsert (MayPrecede visible?) a = run ++ back.orderedInsert (MayPrecede visible?) a := by
  induction run with
  | nil => rfl
  | cons first others ih =>
    obtain ⟨here,later⟩ := List.forall_mem_cons.mp shown
    rw [List.cons_append,List.orderedInsert_of_not_le,ih later,List.cons_append]
    exact fun fine => fine hidden here

-- What has no visibility ends a run.
theorem visibleFirst_back (plain : ∀ a ∈ back, visible? a = none) :
    visibleFirst visible? (run ++ back) = visibleFirst visible? run ++ back := by
  have inserted : ∀ a before, (before ++ back).orderedInsert (MayPrecede visible?) a =
      before.orderedInsert (MayPrecede visible?) a ++ back := by
    intro a before
    induction before with
    | nil => exact orderedInsert_stays fun b member => by simp [plain b member]
    | cons first rest ih =>
      rw [List.cons_append,List.orderedInsert_cons,List.orderedInsert_cons,ih]
      split <;> rfl
  induction run with
  | nil =>
    have alone : visibleFirst visible? (back ++ []) = back ++ [] := visibleFirst_front fun a member => by simp [plain a member]
    rwa [List.append_nil] at alone
  | cons first rest ih =>
    rw [visibleFirst] at ih
    rw [visibleFirst,List.cons_append,List.insertionSort_cons,ih,inserted]
    rfl

theorem visibleFirst_map (f : β → α) (items : List β) :
    visibleFirst visible? (items.map f) = (visibleFirst (fun b => visible? (f b)) items).map f :=
  (List.map_insertionSort _ _ f items fun _ _ _ _ => Iff.rfl).symm

theorem visibleFirst_all (visible : α → Bool) (items : List α) :
    visibleFirst (fun a => some (visible a)) items = items.filter (visible · = true) ++ items.filter (visible · = false) := by
  induction items with
  | nil => rfl
  | cons first rest ih =>
    cases here : visible first with
    | true =>
      have kept : visibleFirst (fun a => some (visible a)) ([first] ++ rest) = [first] ++ _ := visibleFirst_front (by simp [here])
      rw [List.singleton_append,ih] at kept
      simpa [here] using kept
    | false =>
      rw [visibleFirst] at ih
      rw [visibleFirst,List.insertionSort_cons,ih,orderedInsert_passes (by simp [here]) (by simp),orderedInsert_stays (by simp)]
      simp [here]

theorem visibleFirst_eq_self : visibleFirst visible? items = items ↔ items.IsChain (MayPrecede visible?) := by
  induction items with
  | nil => simp [visibleFirst]
  | cons first rest ih =>
    rw [visibleFirst] at ih
    rw [visibleFirst,List.insertionSort_cons]
    have itself : MayPrecede visible? first first := fun hidden => by simp [hidden]
    constructor
    · intro same
      cases sorted : rest.insertionSort (MayPrecede visible?) with
      | nil =>
        rw [sorted] at same
        cases same
        exact .singleton first
      | cons next others =>
        rw [sorted,List.orderedInsert_cons] at same
        split at same
        · obtain rfl := (List.cons.inj same).2
          exact .cons_cons ‹_› (ih.mp sorted)
        · obtain rfl := (List.cons.inj same).1
          contradiction
    · intro chain
      rw [ih.mpr chain.tail]
      cases chain with
      | singleton => rfl
      | cons_cons fine _ => exact List.orderedInsert_cons_of_le _ _ fine

theorem visibleFirst_perm (items : List α) : (visibleFirst visible? items).Perm items := List.perm_insertionSort _ items

theorem visibleFirst_plain (items : List α) :
    (visibleFirst visible? items).filter (visible? · = none) = items.filter (visible? · = none) := by
  have inserted : ∀ a (items : List α), (items.orderedInsert (MayPrecede visible?) a).filter (visible? · = none) =
      (a :: items).filter (visible? · = none) := by
    intro a items
    induction items with
    | nil => rfl
    | cons first rest ih =>
      rw [List.orderedInsert_cons]
      split
      · rfl
      · have hidden : visible? a = some false := by
          by_contra plain
          exact absurd (mayPrecede_any plain) ‹_›
        rw [List.filter_cons,ih]
        simp [List.filter_cons,hidden]
  induction items with
  | nil => rfl
  | cons first rest ih =>
    rw [visibleFirst] at ih ⊢
    rw [List.insertionSort_cons,inserted,List.filter_cons,List.filter_cons,ih]

end

theorem map_unmoved {f : α → α} {items : List α} (each : ∀ a ∈ items, f a = a) : items.map f = items :=
  (List.map_congr_left each).trans (List.map_id _)

-- Annotations. In a tree all of them have bodies, and only elements of annotations have names.

namespace AnnotPart

-- A part that a tree tells again, under the name that is kept for it.
def Kept (name : Option String) (part : AnnotPart) : Prop :=
  (Element.ofPart part).1 = name.getD "" ∧ Element.part .everything name (Element.ofPart part).2 = part

end AnnotPart

namespace Element

theorem namedParts_ofParts {parts : List AnnotPart} (kept : ∀ part ∈ parts, ∃ name, part.Kept (some name)) :
    namedParts .everything (ofParts parts) = parts := by
  induction parts with
  | nil => rfl
  | cons first rest ih =>
    obtain ⟨⟨name,named,told⟩,others⟩ := List.forall_mem_cons.mp kept
    rw [Option.getD_some] at named
    rw [ofParts,← Prod.mk.eta (p := ofPart first),namedParts,named,told,ih others]

theorem itemParts_ofItemParts {parts : List AnnotPart} (kept : ∀ part ∈ parts, part.Kept none) :
    itemParts .everything (ofItemParts parts) = parts := by
  induction parts with
  | nil => rfl
  | cons first rest ih =>
    obtain ⟨⟨-,told⟩,others⟩ := List.forall_mem_cons.mp kept
    rw [ofItemParts,itemParts,told,ih others]

end Element

namespace Container

variable {c : Container}

mutual

theorem valueParts_kept {name : Option String} {value : Value} {parts : List AnnotPart}
    (told : c.valueParts .everything name value = .ok parts) : ∀ part ∈ parts, part.Kept name := by
  cases value with
  | string index =>
    simp only [valueParts,bind_eq_ok,pure_eq_ok] at told
    obtain ⟨_,-,rfl⟩ := told
    exact List.forall_mem_singleton.mpr ⟨rfl,rfl⟩
  | type index =>
    simp only [valueParts,bind_eq_ok,pure_eq_ok] at told
    obtain ⟨_,-,rfl⟩ := told
    exact List.forall_mem_singleton.mpr ⟨rfl,rfl⟩
  | enum index =>
    simp only [valueParts,bind_eq_ok,pure_eq_ok] at told
    obtain ⟨_,-,rfl⟩ := told
    exact List.forall_mem_singleton.mpr ⟨rfl,rfl⟩
  | annot index elements =>
    simp only [valueParts,show Interest.everything.nested = true from rfl,body_wanted,bind_eq_ok,pure_eq_ok] at told
    obtain ⟨type,-,_,⟨body,inside,rfl⟩,rfl⟩ := told
    have again := Element.namedParts_ofParts (elementParts_kept inside)
    exact List.forall_mem_singleton.mpr ⟨rfl,congrArg (AnnotPart.nested name type <| some ·) again⟩
  | array items =>
    simp only [valueParts,show Interest.everything.arrays = true from rfl,body_wanted,bind_eq_ok,pure_eq_ok] at told
    obtain ⟨_,⟨body,inside,rfl⟩,rfl⟩ := told
    have again := Element.itemParts_ofItemParts (itemParts_kept inside)
    exact List.forall_mem_singleton.mpr ⟨rfl,congrArg (AnnotPart.array name <| some ·) again⟩
  | _ =>
    rw [valueParts] at told
    cases told
    simp [AnnotPart.Kept,Element.ofPart,Element.part]

theorem itemParts_kept {items : List Value} {parts : List AnnotPart} (told : c.itemParts .everything items = .ok parts) :
    ∀ part ∈ parts, part.Kept none := by
  cases items with
  | nil =>
    rw [itemParts] at told
    cases told
    simp
  | cons first rest =>
    simp only [itemParts,bind_eq_ok,pure_eq_ok] at told
    obtain ⟨here,first,others,later,rfl⟩ := told
    exact List.forall_mem_append.mpr ⟨valueParts_kept first,itemParts_kept later⟩

theorem elementParts_kept {elements : List (UInt32 × Value)} {parts : List AnnotPart}
    (told : c.elementParts .everything elements = .ok parts) : ∀ part ∈ parts, ∃ name, part.Kept (some name) := by
  cases elements with
  | nil =>
    rw [elementParts] at told
    cases told
    simp
  | cons first rest =>
    obtain ⟨index,value⟩ := first
    simp only [elementParts,bind_eq_ok,pure_eq_ok] at told
    obtain ⟨name,-,here,first,others,later,rfl⟩ := told
    exact List.forall_mem_append.mpr ⟨fun part member => ⟨name,valueParts_kept first part member⟩,elementParts_kept later⟩

end

theorem valueParts_single {name : Option String} {value : Value} {parts : List AnnotPart}
    (told : c.valueParts .everything name value = .ok parts) : parts.length ≤ 1 := by
  cases value <;> simp only [valueParts,bind_eq_ok,pure_eq_ok,Except.ok.injEq] at told <;> grind

end Container

namespace AnnotDescription

def Full (a : AnnotDescription) : Prop := ∃ body, a.body = some body ∧ ∀ part ∈ body, ∃ name, part.Kept (some name)

theorem Full.retold {a : AnnotDescription} (full : a.Full) : (AnnotNode.ofDescription a).describe .everything true a.visible = a := by
  obtain ⟨type,visible,_⟩ := a
  obtain ⟨body,rfl,kept⟩ := full
  rw [AnnotNode.ofDescription_eq]
  exact congrArg (AnnotDescription.mk type visible <| some ·) (Element.namedParts_ofParts kept)

end AnnotDescription

theorem describeAnnots_ofVisibility {annots : List AnnotDescription} (full : ∀ a ∈ annots, a.Full) :
    describeAnnots .everything true (AnnotNode.ofVisibility true annots) (AnnotNode.ofVisibility false annots) =
      visibleFirst (fun a => some a.visible) annots := by
  have again : ∀ visible, (AnnotNode.ofVisibility visible annots).map (·.describe .everything true visible) =
      annots.filter (·.visible = visible) := by
    intro visible
    rw [AnnotNode.ofVisibility,List.map_map]
    refine map_unmoved fun a member => ?_
    obtain ⟨listed,same⟩ := List.mem_filter.mp member
    obtain rfl := of_decide_eq_true same
    exact (full a listed).retold
  rw [describeAnnots,again,again,visibleFirst_all]

theorem Container.describeAnnots_full {c : Container} {items : List AnnotItem} {annots : List AnnotDescription}
    (told : c.describeAnnots .everything true items = .ok annots) : ∀ a ∈ annots, a.Full := by
  simp only [Container.describeAnnots,bind_eq_ok] at told
  obtain ⟨declared,-,told⟩ := told
  intro a member
  obtain ⟨one,-,described⟩ := mem_mapM told member
  simp only [body_wanted,bind_eq_ok,pure_eq_ok] at described
  obtain ⟨_,⟨body,inside,rfl⟩,rfl⟩ := described
  exact ⟨body,rfl,elementParts_kept inside⟩

-- What a description is when it is told again.

def MethodPart.visible? : MethodPart → Option Bool
  | .annot a => some a.visible
  | _ => none

-- A default is lost with its value.
def MethodPart.isTold : MethodPart → Bool
  | .default body => !(body.getD []).isEmpty
  | _ => true

def ClassPart.visible? : ClassPart → Option Bool
  | .annot a => some a.visible
  | _ => none

def ClassPart.retold : ClassPart → ClassPart
  | .field header annots => .field header (annots.map (visibleFirst fun a => some a.visible))
  | .method header body => .method header (body.map fun parts => visibleFirst MethodPart.visible? (parts.filter MethodPart.isTold))
  | part => part

def ClassDescription.retold (d : ClassDescription) : ClassDescription :=
  { d with parts := visibleFirst ClassPart.visible? (d.parts.map ClassPart.retold) }

-- Members in the order in which they are described, with nothing left out.

structure FieldLayout where
  header : FieldHeader
  annots : List AnnotDescription
  full : ∀ a ∈ annots, a.Full

structure MethodLayout where
  header : MethodHeader
  default : Option (List AnnotPart)
  annots : List AnnotDescription
  parameters : List (Nat × AnnotDescription)
  code : Option Code
  single : ∀ body ∈ default, body.length ≤ 1
  kept : ∀ body ∈ default, ∀ part ∈ body, part.Kept none
  full : ∀ a ∈ annots, a.Full
  parametersFull : ∀ p ∈ parameters, p.2.Full
  replayed : ∀ body ∈ code, Code.ofParts body.parts = body

structure ClassLayout where
  header : ClassHeader
  source : Option String
  outer : Option OuterClass
  annots : List AnnotDescription
  inner : List InnerClass
  fields : List FieldLayout
  methods : List MethodLayout
  full : ∀ a ∈ annots, a.Full

namespace FieldLayout

def part (l : FieldLayout) : ClassPart := .field l.header (some l.annots)

def node (l : FieldLayout) : FieldNode := .ofDescription l.header (some l.annots)

theorem node_describe (l : FieldLayout) : l.node.describe .everything = l.part.retold :=
  congrArg (ClassPart.field l.header <| some ·) (describeAnnots_ofVisibility l.full)

end FieldLayout

namespace MethodLayout

def front (l : MethodLayout) : List MethodPart := l.default.toList.map fun body => .default (some body)

def back (l : MethodLayout) : List MethodPart :=
  (l.parameters.map fun p => .parameter p.1 p.2) ++ l.code.toList.map fun body => .code (some body.parts)

def parts (l : MethodLayout) : List MethodPart := l.front ++ l.annots.map .annot ++ l.back

def part (l : MethodLayout) : ClassPart := .method l.header (some l.parts)

def node (l : MethodLayout) : MethodNode := .ofDescription l.header (some l.parts)

theorem front_plain (l : MethodLayout) : ∀ part ∈ l.front, part.visible? = none := by
  simp [front,MethodPart.visible?]

theorem back_plain (l : MethodLayout) : ∀ part ∈ l.back, part.visible? = none ∧ part.isTold = true := by
  intro part member
  simp only [back,List.mem_append,List.mem_map] at member
  rcases member with ⟨_,-,rfl⟩ | ⟨_,-,rfl⟩ <;> exact ⟨rfl,rfl⟩

theorem retold_parts (l : MethodLayout) : visibleFirst MethodPart.visible? (l.parts.filter MethodPart.isTold) =
    l.front.filter MethodPart.isTold ++ (visibleFirst (fun a => some a.visible) l.annots).map .annot ++ l.back := by
  have annots : (l.annots.map MethodPart.annot).filter MethodPart.isTold = l.annots.map .annot :=
    List.filter_eq_self.mpr (by simp [MethodPart.isTold])
  rw [parts,List.filter_append,List.filter_append,annots,List.filter_eq_self.mpr fun part member => (l.back_plain part member).2,
    visibleFirst_back fun part member => (l.back_plain part member).1,visibleFirst_front,visibleFirst_map]
  · rfl
  · intro part member
    simp [l.front_plain part (List.mem_of_mem_filter member)]

theorem annots_read (l : MethodLayout) : l.parts.filterMap MethodNode.annot? = l.annots := by
  simp [parts,front,back,List.filterMap_map,Function.comp_def,MethodNode.annot?]

theorem parameters_read (l : MethodLayout) :
    l.parts.filterMap MethodNode.parameter? = l.parameters.map fun p => (p.1,.ofDescription p.2,p.2.visible) := by
  simp [parts,front,back,List.filterMap_map,Function.comp_def,MethodNode.parameter?]

theorem code_read (l : MethodLayout) : (l.parts.filterMap MethodNode.code?).getLast? = l.code := by
  have only : l.parts.filterMap MethodNode.code? = l.code.toList.map fun body => Code.ofParts body.parts := by
    simp [parts,front,back,List.filterMap_map,Function.comp_def,MethodNode.code?]
  rw [only]
  cases given : l.code with
  | none => rfl
  | some body => exact congrArg some (l.replayed body given)

theorem default_read (l : MethodLayout) : ((l.parts.foldl MethodNode.recordDefault none).toList.map fun element =>
    MethodPart.default (some (Element.itemParts .everything [element]))) = l.front.filter MethodPart.isTold := by
  have only : l.parts.flatMap MethodNode.defaults = l.default.toList.flatMap Element.ofItemParts := by
    simp [parts,front,back,List.flatMap_map,MethodNode.defaults,Element.ofItems]
  rw [MethodNode.foldl_recordDefault,Option.or_none,only,front]
  cases given : l.default with
  | none => rfl
  | some body =>
    have kept := l.kept body given
    match body, l.single body given with
    | [], _ => rfl
    | [part], _ =>
      have again : Element.itemParts .everything [(Element.ofPart part).2] = [part] := Element.itemParts_ofItemParts kept
      simp [Element.ofItemParts,again,MethodPart.isTold]

theorem node_describe (l : MethodLayout) : l.node.describe .everything = l.part.retold := by
  have parameters : (l.parameters.map fun p => MethodPart.parameter p.1
      ((AnnotNode.ofDescription p.2).describe .everything true p.2.visible)) = l.parameters.map fun p => .parameter p.1 p.2 :=
    List.map_congr_left fun p member => by rw [(l.parametersFull p member).retold]
  have told : l.node.parts .everything =
      l.front.filter MethodPart.isTold ++ (visibleFirst (fun a => some a.visible) l.annots).map .annot ++ l.back := by
    rw [← describeAnnots_ofVisibility l.full,← l.default_read,back,← parameters,← List.append_assoc]
    simp only [MethodNode.parts,node,MethodNode.ofDescription,Option.getD_some,annots_read,parameters_read,code_read,List.map_map]
    rfl
  exact congrArg (ClassPart.method l.header <| some ·) (told.trans l.retold_parts.symm)

end MethodLayout

namespace ClassPart

theorem retold_visible? (part : ClassPart) : part.retold.visible? = part.visible? := by
  cases part <;> rfl

end ClassPart

namespace ClassLayout

def front (l : ClassLayout) : List ClassPart := l.source.toList.map .source ++ l.outer.toList.map .outer

def back (l : ClassLayout) : List ClassPart := l.inner.map .inner ++ l.fields.map (·.part) ++ l.methods.map (·.part)

def description (l : ClassLayout) : ClassDescription := ⟨l.header,l.front ++ l.annots.map .annot ++ l.back⟩

theorem front_plain (l : ClassLayout) : ∀ part ∈ l.front, part.visible? = none ∧ part.retold = part := by
  intro part member
  simp only [front,List.mem_append,List.mem_map] at member
  rcases member with ⟨_,-,rfl⟩ | ⟨_,-,rfl⟩ <;> exact ⟨rfl,rfl⟩

theorem back_plain (l : ClassLayout) : ∀ part ∈ l.back, part.visible? = none := by
  intro part member
  simp only [back,List.mem_append,List.mem_map] at member
  rcases member with (⟨_,-,rfl⟩ | ⟨_,-,rfl⟩) | ⟨_,-,rfl⟩ <;> rfl

theorem retold_parts (l : ClassLayout) : l.description.retold.parts =
    l.front ++ (visibleFirst (fun a => some a.visible) l.annots).map .annot ++ l.back.map ClassPart.retold := by
  have front : l.front.map ClassPart.retold = l.front := map_unmoved fun part member => (l.front_plain part member).2
  have annots : (l.annots.map ClassPart.annot).map ClassPart.retold = l.annots.map .annot := by
    rw [List.map_map]
    rfl
  rw [ClassDescription.retold,description,List.map_append,List.map_append,front,annots,visibleFirst_back,visibleFirst_front,
    visibleFirst_map]
  · rfl
  · intro part member
    simp [(l.front_plain part member).1]
  · intro part member
    obtain ⟨part,listed,rfl⟩ := List.mem_map.mp member
    rw [part.retold_visible?,l.back_plain part listed]

theorem source_read (l : ClassLayout) : (l.description.parts.filterMap ClassNode.source?).getLast? = l.source := by
  have only : l.description.parts.filterMap ClassNode.source? = l.source.toList := by
    simp [description,front,back,List.filterMap_map,Function.comp_def,ClassNode.source?,FieldLayout.part,MethodLayout.part]
  rw [only]
  cases l.source <;> rfl

theorem outer_read (l : ClassLayout) : (l.description.parts.filterMap ClassNode.outer?).getLast? = l.outer := by
  have only : l.description.parts.filterMap ClassNode.outer? = l.outer.toList := by
    simp [description,front,back,List.filterMap_map,Function.comp_def,ClassNode.outer?,FieldLayout.part,MethodLayout.part]
  rw [only]
  cases l.outer <;> rfl

theorem annots_read (l : ClassLayout) : l.description.parts.filterMap ClassNode.annot? = l.annots := by
  simp [description,front,back,List.filterMap_map,Function.comp_def,ClassNode.annot?,FieldLayout.part,MethodLayout.part]

theorem inner_read (l : ClassLayout) : l.description.parts.filterMap ClassNode.inner? = l.inner := by
  simp [description,front,back,List.filterMap_map,Function.comp_def,ClassNode.inner?,FieldLayout.part,MethodLayout.part]

theorem fields_read (l : ClassLayout) : l.description.parts.filterMap ClassNode.field? = l.fields.map (·.node) := by
  simp [description,front,back,List.filterMap_map,Function.comp_def,ClassNode.field?,FieldLayout.part,MethodLayout.part,FieldLayout.node]

theorem methods_read (l : ClassLayout) : l.description.parts.filterMap ClassNode.method? = l.methods.map (·.node) := by
  simp [description,front,back,List.filterMap_map,Function.comp_def,ClassNode.method?,FieldLayout.part,MethodLayout.part,MethodLayout.node]

theorem node_describe (l : ClassLayout) : (ClassNode.ofDescription l.description).describe .everything = l.description.retold := by
  have back : l.back.map ClassPart.retold = l.inner.map .inner ++ (l.fields.map (·.node)).map (·.describe .everything) ++
      (l.methods.map (·.node)).map (·.describe .everything) := by
    simp only [ClassLayout.back,List.map_append,List.map_map]
    congr 1
    · congr 1
      exact List.map_congr_left fun f _ => f.node_describe.symm
    · exact List.map_congr_left fun m _ => m.node_describe.symm
  have told : ((ClassNode.ofDescription l.description).describe .everything).parts = l.description.retold.parts := by
    rw [l.retold_parts,back,← describeAnnots_ofVisibility l.full]
    simp only [ClassNode.describe,ClassNode.ofDescription,source_read,outer_read,annots_read,inner_read,fields_read,methods_read,
      front,List.append_assoc]
    rfl
  exact congrArg (ClassDescription.mk l.header) told

end ClassLayout

-- Every described class is laid out so.

theorem Code.stub_replayed (message : String) : ofParts (stub message).parts = stub message := rfl

namespace Container

variable {c : Container} {settings : Settings} {d : ClassDef} {directory : Option Directory} {defaults : Option Annot}
  {entry : MethodEntry}

theorem describeField_laid {field : FieldEntry} {value : Option FieldValue} {part : ClassPart}
    (told : c.describeField .everything directory field value = .ok part) : part ∈ Set.range FieldLayout.part := by
  simp only [describeField,show Interest.everything.fields = true from rfl,body_wanted,bind_eq_ok,pure_eq_ok] at told
  obtain ⟨f,-,items,-,info,-,_,⟨annots,listed,rfl⟩,rfl⟩ := told
  exact ⟨⟨_,annots,describeAnnots_full listed⟩,rfl⟩

theorem describeFields_laid {entries : List FieldEntry} {values : List Value} {parts : List ClassPart}
    (told : c.describeFields .everything directory entries values = .ok parts) :
    ∀ part ∈ parts, part ∈ Set.range FieldLayout.part :=
  forall₂_right (fun _ _ ⟨_,_,here⟩ => describeField_laid here) (describeFields_each told)

theorem defaultPart_laid {name : String} {parts : List MethodPart} (told : c.defaultPart defaults name = .ok parts) :
    ∃ default : Option (List AnnotPart), parts = (default.toList.map fun body => .default (some body)) ∧
      ∀ body ∈ default, body.length ≤ 1 ∧ ∀ part ∈ body, part.Kept none := by
  unfold defaultPart at told
  split at told
  · cases told
    exact ⟨none,rfl,by simp⟩
  · simp only [body_wanted,bind_eq_ok,pure_eq_ok] at told
    obtain ⟨_,⟨body,inside,rfl⟩,rfl⟩ := told
    refine ⟨some body,rfl,?_⟩
    rintro _ ⟨⟩
    exact ⟨valueParts_single inside,valueParts_kept inside⟩

theorem parameters_laid {sets : List (List AnnotItem × Nat)} {listed : List (List MethodPart)}
    (told : (sets.mapM fun (set,index) => do
      return (← c.describeAnnots .everything true set).map (MethodPart.parameter index)) = .ok listed) :
    ∃ parameters : List (Nat × AnnotDescription), listed.flatten = (parameters.map fun p => .parameter p.1 p.2) ∧
      ∀ p ∈ parameters, p.2.Full := by
  have each : ∀ part ∈ listed.flatten,
      part ∈ Set.range fun p : { p : Nat × AnnotDescription // p.2.Full } => MethodPart.parameter p.1.1 p.1.2 := by
    intro part member
    obtain ⟨parts,among,inside⟩ := List.mem_flatten.mp member
    obtain ⟨⟨set,index⟩,-,described⟩ := mem_mapM told among
    simp only [bind_eq_ok,pure_eq_ok] at described
    obtain ⟨annots,full,rfl⟩ := described
    obtain ⟨a,here,rfl⟩ := List.mem_map.mp inside
    exact ⟨⟨(index,a),describeAnnots_full full a here⟩,rfl⟩
  obtain ⟨parameters,same⟩ := (Set.range_list_map _).ge each
  refine ⟨parameters.map (·.1),?_,?_⟩
  · rw [← same,List.map_map]
    rfl
  · intro p member
    obtain ⟨p,-,rfl⟩ := List.mem_map.mp member
    exact p.2

theorem bodyParts_laid {parts : List MethodPart} (done : c.bodyParts settings d entry = .ok parts) :
    ∃ code : Option Code, parts = (code.toList.map fun body => .code (some body.parts)) ∧
      ∀ body ∈ code, Code.ofParts body.parts = body := by
  have under : { settings with methodErrors := settings.methodErrors } = settings := rfl
  rw [← under] at done
  rcases bodyParts_ok done with ⟨-,rfl⟩ | ⟨-,code,own,rfl⟩ | ⟨-,-,f,-,-,rfl⟩
  · exact ⟨none,rfl,by simp⟩
  · exact ⟨some code,rfl,by simpa using ownBody_replayed own⟩
  · exact ⟨some (Code.stub f.message),rfl,by simpa using Code.stub_replayed f.message⟩

theorem describeMethod_laid {part : ClassPart} (told : c.describeMethod settings .everything d directory defaults entry = .ok part) :
    part ∈ Set.range MethodLayout.part := by
  simp only [describeMethod_eq,methodFront,bind_eq_ok,pure_eq_ok] at told
  obtain ⟨_,⟨m,-,items,-,info,-,_,defaulted,annots,listed,sets,-,_,others,rfl⟩,_,body,rfl⟩ := told
  obtain ⟨default,rfl,valued⟩ := defaultPart_laid defaulted
  obtain ⟨parameters,flat,parametersFull⟩ := parameters_laid others
  obtain ⟨code,rfl,replayed⟩ := bodyParts_laid body
  dsimp only
  rw [flat,List.append_assoc]
  exact ⟨⟨_,default,annots,parameters,code,fun body given => (valued body given).1,fun body given => (valued body given).2,
    describeAnnots_full listed,parametersFull,replayed⟩,rfl⟩

theorem membersOf_laid {fields : List ClassPart} {methods : List MethodEntry}
    (found : c.membersOf d directory = .ok (fields,methods)) : ∀ part ∈ fields, part ∈ Set.range FieldLayout.part := by
  simp only [membersOf,bind_eq_ok] at found
  obtain ⟨data,-,found⟩ := found
  cases data with
  | none =>
    simp only [pure_eq_ok,Prod.mk.injEq] at found
    simp [← found.1]
  | some data =>
    simp only [bind_eq_ok,pure_eq_ok,Prod.mk.injEq] at found
    obtain ⟨values,-,statics,first,instances,second,rfl,-⟩ := found
    exact List.forall_mem_append.mpr ⟨describeFields_laid first,describeFields_laid second⟩

theorem describe_laid {description : ClassDescription} (accepted : c.describe settings .everything d = .ok description) :
    description ∈ Set.range ClassLayout.description := by
  simp only [describe_eq,within_eq_ok,surroundings,bind_eq_ok,pure_eq_ok] at accepted
  obtain ⟨_,⟨directory,-,items,-,info,-,name,-,superName,-,interfaces,-,annots,listed,inner,told,
    ⟨fields,entries⟩,members,rfl⟩,methods,described,rfl⟩ := accepted
  have inside : ∀ part ∈ inner, part ∈ Set.range ClassPart.inner := by
    intro part member
    obtain ⟨one,-,found⟩ := mem_mapM told member
    simp only [bind_eq_ok,pure_eq_ok] at found
    obtain ⟨_,-,rfl⟩ := found
    exact ⟨_,rfl⟩
  have bodies : ∀ part ∈ methods, part ∈ Set.range MethodLayout.part := by
    intro part member
    obtain ⟨entry,-,here⟩ := mem_mapM described member
    exact describeMethod_laid here
  obtain ⟨inner,rfl⟩ := (Set.range_list_map _).ge inside
  obtain ⟨fields,rfl⟩ := (Set.range_list_map _).ge (membersOf_laid members)
  obtain ⟨methods,rfl⟩ := (Set.range_list_map _).ge bodies
  refine ⟨⟨_,d.sourceFile,outerClass info,annots,(ownInner name info).toList ++ inner,fields,methods,describeAnnots_full listed⟩,
    congrArg (ClassDescription.mk _) ?_⟩
  simp [ClassLayout.front,ClassLayout.back]

end Container

end Restack
