import Mathlib
import Restack.Class.Listing
import Restack.Proofs.Class.Retold

namespace Restack

-- The listing of a class that was recorded as a tree first, against the listing of the class itself. They are the same
-- unless an annotation that is not visible was described before a visible one, or a default has no value.

namespace ClassPart

def Settled : ClassPart → Prop
  | .field _ annots => (annots.getD []).IsChain (MayPrecede fun a => some a.visible)
  | .method _ body => (body.getD []).IsChain (MayPrecede MethodPart.visible?) ∧ ∀ part ∈ body.getD [], part.isTold = true
  | _ => True

instance : DecidablePred Settled
  | .field _ annots => inferInstanceAs (Decidable ((annots.getD []).IsChain _))
  | .method _ body => inferInstanceAs (Decidable ((body.getD []).IsChain _ ∧ ∀ part ∈ body.getD [], part.isTold = true))
  | .source _ | .outer _ | .annot _ | .inner _ => .isTrue trivial

theorem retold_eq_self (part : ClassPart) : part.retold = part ↔ part.Settled := by
  cases part with
  | field header annots =>
    cases annots with
    | none => simp [retold,Settled]
    | some annots => simp [retold,Settled,visibleFirst_eq_self]
  | method header body =>
    cases body with
    | none => simp [retold,Settled]
    | some parts =>
      simp only [retold,Settled,Option.map_some,Option.getD_some,method.injEq,Option.some.injEq,true_and]
      rw [← visibleFirst_eq_self]
      constructor
      · intro same
        -- A part that is left out is missing from the count.
        have long := (visibleFirst_perm (parts.filter MethodPart.isTold)).length_eq.symm.trans (congrArg List.length same)
        have all := List.length_filter_eq_length_iff.mp long
        rw [List.filter_eq_self.mpr all] at same
        exact ⟨same,all⟩
      · rintro ⟨same,all⟩
        rw [List.filter_eq_self.mpr all,same]
  | _ => simp [retold,Settled]

end ClassPart

namespace ClassDescription

structure Settled (d : ClassDescription) : Prop where
  annots : d.parts.IsChain (MayPrecede ClassPart.visible?)
  members : ∀ part ∈ d.parts, part.Settled

instance : DecidablePred Settled := fun d =>
  decidable_of_iff (d.parts.IsChain (MayPrecede ClassPart.visible?) ∧ ∀ part ∈ d.parts, part.Settled)
    ⟨fun ⟨annots,members⟩ => ⟨annots,members⟩,fun settled => ⟨settled.annots,settled.members⟩⟩

theorem retold_eq_self (d : ClassDescription) : d.retold = d ↔ d.Settled := by
  obtain ⟨header,parts⟩ := d
  constructor
  · intro same
    have sorted : visibleFirst ClassPart.visible? (parts.map ClassPart.retold) = parts := congrArg ClassDescription.parts same
    -- Parts without a visibility keep their places among each other, so each is its own telling.
    have plain : (parts.filter (·.visible? = none)).map ClassPart.retold = parts.filter (·.visible? = none) := by
      have kept := sorted ▸ visibleFirst_plain (parts.map ClassPart.retold)
      rw [List.filter_map] at kept
      simpa only [Function.comp_def,ClassPart.retold_visible?] using kept.symm
    have each : ∀ part ∈ parts, part.retold = part := by
      intro part member
      by_cases none : part.visible? = none
      · exact List.map_inj_left.mp (plain.trans (List.map_id _).symm) part (List.mem_filter.mpr ⟨member,by simp [none]⟩)
      · cases part <;> first | rfl | exact absurd rfl none
    rw [map_unmoved each,visibleFirst_eq_self] at sorted
    exact ⟨sorted,fun part member => part.retold_eq_self.mp (each part member)⟩
  · rintro ⟨annots,members⟩
    have each := map_unmoved fun part member => (ClassPart.retold_eq_self part).mpr (members part member)
    exact congrArg (ClassDescription.mk header) (by rw [each,visibleFirst_eq_self.mpr annots])

end ClassDescription

theorem flatMap_pointwise {short long : α → List β} {items : List α} (le : ∀ a ∈ items, (short a).length ≤ (long a).length)
    (same : items.flatMap short = items.flatMap long) : ∀ a ∈ items, short a = long a := by
  induction items with
  | nil => simp
  | cons first rest ih =>
    obtain ⟨here,others⟩ := List.forall_mem_cons.mp le
    have shorter : (rest.flatMap short).length ≤ (rest.flatMap long).length := by
      rw [List.length_flatMap,List.length_flatMap]
      exact List.sum_le_sum others
    rw [List.flatMap_cons,List.flatMap_cons] at same
    have total := congrArg List.length same
    rw [List.length_append,List.length_append] at total
    obtain ⟨one,later⟩ := List.append_inj same (by omega)
    exact List.forall_mem_cons.mpr ⟨one,ih others later⟩

theorem visibleFirst_length (visible? : α → Option Bool) (text : α → List β) (items : List α) :
    ((visibleFirst visible? items).flatMap text).length = (items.flatMap text).length :=
  ((visibleFirst_perm items).flatMap_right text).length_eq

-- By induction from the end: a visible item that is last cannot change places with one that ends otherwise.
theorem visibleFirst_of_text {visible : α → Bool} {text : α → List β} {items : List α}
    (apart : ∀ a b, visible a = true → visible b = false → ∀ x y, x ++ text a ≠ y ++ text b)
    (same : (visibleFirst (fun a => some (visible a)) items).flatMap text = items.flatMap text) :
    visibleFirst (fun a => some (visible a)) items = items := by
  have snoc : ∀ (items : List α) a, (items ++ [a]).flatMap text = items.flatMap text ++ text a := by simp
  rw [visibleFirst_all] at same ⊢
  induction items using List.reverseRecOn with
  | nil => rfl
  | append_singleton before last ih =>
    cases here : visible last with
    | false =>
      have shown : (before ++ [last]).filter (visible · = true) = before.filter (visible · = true) := by simp [here]
      have hidden : (before ++ [last]).filter (visible · = false) = before.filter (visible · = false) ++ [last] := by simp [here]
      rw [shown,hidden,← List.append_assoc] at same ⊢
      rw [snoc,snoc] at same
      rw [ih (List.append_cancel_right same)]
    | true =>
      have shown : (before ++ [last]).filter (visible · = true) = before.filter (visible · = true) ++ [last] := by simp [here]
      have hidden : (before ++ [last]).filter (visible · = false) = before.filter (visible · = false) := by simp [here]
      rw [shown,hidden] at same ⊢
      rcases List.eq_nil_or_concat' (before.filter (visible · = false)) with none | ⟨front,other,concat⟩
      · have all : before.filter (visible · = true) = before := by
          refine List.filter_eq_self.mpr fun a member => ?_
          simpa using List.filter_eq_nil_iff.mp none a member
        rw [none,all,List.append_nil]
      · have other_hidden : visible other = false := by
          have member : other ∈ before.filter (visible · = false) := concat ▸ List.mem_append_right _ List.mem_cons_self
          simpa using (List.mem_filter.mp member).2
        rw [concat,← List.append_assoc,snoc,snoc] at same
        exact absurd same.symm (apart last other here other_hidden _ _)

namespace Listing

theorem join_toList (text : α → String) (items : List α) :
    (String.join (items.map text)).toList = items.flatMap fun a => (text a).toList := by
  rw [String.toList_join,List.flatMap_map]

theorem annot_apart (indent : String) (a b : AnnotDescription) (shown : a.visible = true) (hidden : b.visible = false)
    (x y : List Char) : x ++ (annot indent a).toList ≠ y ++ (annot indent b).toList := by
  intro same
  have first : ∃ front, (annot indent a).toList = front ++ [')','\n'] := by
    simp only [annot,shown,if_true,String.toList_append]
    exact ⟨_,rfl⟩
  have second : ∃ front, (annot indent b).toList = front ++ ['e','\n'] := by
    have ending : ") // invisible\n".toList = ") // invisibl".toList ++ ['e','\n'] := rfl
    simp only [annot,hidden,Bool.false_eq_true,if_false,String.toList_append,ending,← List.append_assoc]
    exact ⟨_,rfl⟩
  obtain ⟨one,first⟩ := first
  obtain ⟨two,second⟩ := second
  rw [first,second,← List.append_assoc,← List.append_assoc] at same
  exact absurd (List.append_inj' same rfl).2 (by decide)

theorem annots_of_text {indent : String} {annots : List AnnotDescription}
    (same : ((visibleFirst (fun a => some a.visible) annots).flatMap fun a => (annot indent a).toList) =
      annots.flatMap fun a => (annot indent a).toList) : visibleFirst (fun a => some a.visible) annots = annots :=
  visibleFirst_of_text (annot_apart indent) same

theorem field_toList (header : FieldHeader) (annots : List AnnotDescription) :
    (classPart (.field header (some annots))).toList = (field header).toList ++ annots.flatMap fun a => (annot "    " a).toList := by
  have told : classPart (.field header (some annots)) = field header ++ String.join (annots.map (annot "    ")) := rfl
  simp only [told,String.toList_append,join_toList]

theorem method_toList (header : MethodHeader) (parts : List MethodPart) :
    (classPart (.method header (some parts))).toList = (method header).toList ++ parts.flatMap fun part => (methodPart part).toList := by
  have told : classPart (.method header (some parts)) = method header ++ String.join (parts.map methodPart) := rfl
  simp only [told,String.toList_append,join_toList]

theorem text_toList (d : ClassDescription) :
    d.text.toList = (header d.header).toList ++ (d.parts.flatMap fun part => (classPart part).toList) ++ "\x7d\n".toList := by
  simp only [ClassDescription.text,String.toList_append,join_toList]

theorem default_toList_ne_nil (body : Option (List AnnotPart)) : (methodPart (.default body)).toList ≠ [] := by
  have told : methodPart (.default body) = "    default=" ++ ", ".intercalate (annotBody body) ++ "\n" := rfl
  rw [told,String.toList_append]
  exact List.append_ne_nil_of_right_ne_nil _ (by decide)

end Listing

open Listing

namespace FieldLayout

variable (l : FieldLayout)

theorem retold_part : l.part.retold = .field l.header (some (visibleFirst (fun a => some a.visible) l.annots)) := rfl

theorem retold_length : (classPart l.part.retold).toList.length = (classPart l.part).toList.length := by
  rw [retold_part,part,field_toList,field_toList,List.length_append,List.length_append,visibleFirst_length]

theorem retold_of_text (same : classPart l.part.retold = classPart l.part) : l.part.retold = l.part := by
  rw [← String.toList_inj,retold_part,part,field_toList,field_toList] at same
  rw [retold_part,annots_of_text (List.append_cancel_left same),part]

end FieldLayout

namespace MethodLayout

variable (l : MethodLayout)

theorem retold_part : l.part.retold = .method l.header (some (l.front.filter MethodPart.isTold ++
    (visibleFirst (fun a => some a.visible) l.annots).map .annot ++ l.back)) :=
  congrArg (ClassPart.method l.header <| some ·) l.retold_parts

theorem front_told : l.front.filter MethodPart.isTold = l.front ∨
    l.front.filter MethodPart.isTold = [] ∧ ∃ body, l.front = [.default body] := by
  rw [front]
  cases l.default with
  | none => exact .inl rfl
  | some body =>
    cases body with
    | nil => exact .inr ⟨rfl,_,rfl⟩
    | cons first rest => exact .inl rfl

theorem part_toList (header : MethodHeader) (front : List MethodPart) (annots : List AnnotDescription) (back : List MethodPart) :
    (classPart (.method header (some (front ++ annots.map .annot ++ back)))).toList =
      (method header).toList ++ ((front.flatMap fun part => (methodPart part).toList) ++
        (annots.flatMap fun a => (annot "    " a).toList) ++ back.flatMap fun part => (methodPart part).toList) := by
  rw [method_toList,List.flatMap_append,List.flatMap_append,List.flatMap_map]
  rfl

theorem retold_length : (classPart l.part.retold).toList.length ≤ (classPart l.part).toList.length := by
  rw [retold_part,part,parts,part_toList,part_toList]
  simp only [List.length_append,visibleFirst_length]
  rcases l.front_told with told | ⟨none,-⟩
  · rw [told]
  · simp [none]

theorem retold_of_text (same : classPart l.part.retold = classPart l.part) : l.part.retold = l.part := by
  rw [retold_part] at same ⊢
  rw [← String.toList_inj,part,parts,part_toList,part_toList] at same
  have texts := List.append_cancel_right (List.append_cancel_left same)
  obtain ⟨first,annots⟩ := List.append_inj' texts (visibleFirst_length _ _ _)
  rw [annots_of_text annots]
  rcases l.front_told with told | ⟨none,body,only⟩
  · rw [told,part,parts]
  · rw [none,only,List.flatMap_nil,List.flatMap_singleton] at first
    exact absurd first.symm (default_toList_ne_nil body)

end MethodLayout

namespace ClassLayout

variable (l : ClassLayout)

theorem retold_back
    (same : (l.back.flatMap fun part => (classPart part.retold).toList) = l.back.flatMap fun part => (classPart part).toList) :
    ∀ part ∈ l.back, part.retold = part := by
  have shorter : ∀ part ∈ l.back, (classPart part.retold).toList.length ≤ (classPart part).toList.length := by
    intro part member
    simp only [back,List.mem_append,List.mem_map] at member
    rcases member with (⟨_,-,rfl⟩ | ⟨f,-,rfl⟩) | ⟨m,-,rfl⟩
    · exact Nat.le_refl _
    · exact f.retold_length.le
    · exact m.retold_length
  have each := flatMap_pointwise shorter same
  intro part member
  have here := String.toList_inj.mp (each part member)
  simp only [back,List.mem_append,List.mem_map] at member
  rcases member with (⟨_,-,rfl⟩ | ⟨f,-,rfl⟩) | ⟨m,-,rfl⟩
  · rfl
  · exact f.retold_of_text here
  · exact m.retold_of_text here

theorem parts_toList (front : List ClassPart) (annots : List AnnotDescription) (back : List ClassPart) :
    ((front ++ annots.map ClassPart.annot ++ back).flatMap fun part => (classPart part).toList) =
      (front.flatMap fun part => (classPart part).toList) ++ (annots.flatMap fun a => (annot "  " a).toList) ++
        back.flatMap fun part => (classPart part).toList := by
  rw [List.flatMap_append,List.flatMap_append,List.flatMap_map]
  rfl

-- No two different tellings of a class look alike: lengths tell where the annotations end, and they the order.
theorem retold_of_text (same : l.description.retold.text = l.description.text) : l.description.retold = l.description := by
  rw [← String.toList_inj,text_toList,text_toList,retold_parts] at same
  have texts := List.append_cancel_left (List.append_cancel_right same)
  rw [description,parts_toList,parts_toList,List.flatMap_map] at texts
  obtain ⟨upper,back⟩ := List.append_inj texts (by simp only [List.length_append,visibleFirst_length])
  have annots := annots_of_text (List.append_cancel_left upper)
  exact congrArg (ClassDescription.mk l.header) (l.retold_parts.trans (by rw [annots,map_unmoved (l.retold_back back)]))

theorem text_iff : l.description.retold.text = l.description.text ↔ l.description.Settled := by
  rw [← ClassDescription.retold_eq_self]
  exact ⟨l.retold_of_text,congrArg ClassDescription.text⟩

end ClassLayout

-- A class that is recorded as a tree and told by it is told as it was, but of each member and of the class itself the
-- visible annotations first, and without the defaults that have no value. So its listing is that of the class exactly
-- if the class was described in that order and all its defaults have values.
theorem recorded_listing_iff (c : Container) (settings : Settings) (d : ClassDef) (description : ClassDescription)
    (accepted : c.describe settings .everything d = .ok description) :
    (ClassNode.ofDescription description).describe .everything = description.retold ∧
      (((ClassNode.ofDescription description).describe .everything).text = description.text ↔ description.Settled) := by
  obtain ⟨l,rfl⟩ := Container.describe_laid accepted
  rw [l.node_describe]
  exact ⟨rfl,l.text_iff⟩

-- An annotation with two annotations of its own, and the default of its method f.
def annotated (one two : UInt8) (value : List UInt8) : Container := { Lowering.bare with
  strings := #["LT;","V","f","LA;","LB;","Ldalvik/annotation/AnnotationDefault;","value"]
  types := #[0,1,3,4,5]
  protos := #[⟨1,1,0⟩]
  methods := #[⟨0,0,2⟩]
  bytes := ([
    0, 0,0,0,1, 0,0x81,8,0,
    25,0,0,0, 0,0,0,0, 0,0,0,0, 0,0,0,0,
    3,0,0,0, 41,0,0,0, 44,0,0,0, 47,0,0,0,
    one,2,0, two,3,0, 2,4,1,6,0x1d,0,1,2] ++ value).toArray }

def annotatedClass : ClassDef := ⟨"LT;",0x2601,none,[],none,⟨0,0x2601,noIndex,0,noIndex,9,1,0⟩⟩

theorem exists_ok_of_any {x : Except Fault α} {p : α → Prop} [DecidablePred p] (holds : x.toOption.any (p ·) = true) :
    ∃ a, x = .ok a ∧ p a := by
  cases x with
  | error f => cases holds
  | ok a => exact ⟨a,rfl,of_decide_eq_true holds⟩

theorem recorded_listing_iff_visibleFirst :
    ∃ description, (annotated 1 0 [0x04,7]).describe {} .everything annotatedClass = .ok description ∧ description.Settled ∧
      ((ClassNode.ofDescription description).describe .everything).text = description.text := by
  obtain ⟨description,accepted,settled⟩ := exists_ok_of_any (p := ClassDescription.Settled)
    (x := (annotated 1 0 [0x04,7]).describe {} .everything annotatedClass) (by decide +kernel)
  exact ⟨description,accepted,settled,(recorded_listing_iff _ _ _ _ accepted).2.mpr settled⟩

-- Two annotations in the other order, and a default of null.
theorem recorded_listing_differs :
    (∃ description, (annotated 0 1 [0x04,7]).describe {} .everything annotatedClass = .ok description ∧
      ((ClassNode.ofDescription description).describe .everything).text ≠ description.text) ∧
    ∃ description, (annotated 1 0 [0x1e]).describe {} .everything annotatedClass = .ok description ∧
      ((ClassNode.ofDescription description).describe .everything).text ≠ description.text :=
  ⟨exists_ok_of_any (by decide +kernel),exists_ok_of_any (by decide +kernel)⟩

end Restack
