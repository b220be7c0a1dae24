import Mathlib
import Restack.Class.Node
import Restack.Proofs.Class.Builder
import Restack.Proofs.Class.Replay

namespace Restack

-- A tree that is described and put together again is the tree it was, but for the order of line numbers: these follow
-- the first placements of their labels.

-- A list that rises by a key is known from what it holds under each key.

theorem mem_iff_of_keyed {key : α → Nat} {one two : List α} (same : ∀ k, one.filter (key · = k) = two.filter (key · = k)) (a : α) :
    a ∈ one ↔ a ∈ two := by
  have here := congrArg (a ∈ ·) (same (key a))
  simpa using here

theorem eq_of_keyed {key : α → Nat} {one two : List α} (rises : one.Pairwise fun a b => key a ≤ key b)
    (climbs : two.Pairwise fun a b => key a ≤ key b) (same : ∀ k, one.filter (key · = k) = two.filter (key · = k)) : one = two := by
  induction one generalizing two with
  | nil =>
    cases two with
    | nil => rfl
    | cons b others => exact absurd ((mem_iff_of_keyed same b).mpr List.mem_cons_self) List.not_mem_nil
  | cons a rest ih =>
    cases two with
    | nil => exact absurd ((mem_iff_of_keyed same a).mp List.mem_cons_self) List.not_mem_nil
    | cons b others =>
      obtain ⟨least,up⟩ := List.pairwise_cons.mp rises
      obtain ⟨lowest,on⟩ := List.pairwise_cons.mp climbs
      -- Each of the two heads is in the other list, so neither key is above the other.
      have level : key a = key b := by
        apply Nat.le_antisymm
        · rcases List.mem_cons.mp ((mem_iff_of_keyed same b).mpr List.mem_cons_self) with rfl | later
          · exact Nat.le_refl _
          · exact least b later
        · rcases List.mem_cons.mp ((mem_iff_of_keyed same a).mp List.mem_cons_self) with rfl | later
          · exact Nat.le_refl _
          · exact lowest a later
      have heads := same (key a)
      rw [List.filter_cons_of_pos (by simp),List.filter_cons_of_pos (by simp [level])] at heads
      obtain rfl := (List.cons.inj heads).1
      have tails : ∀ k, rest.filter (key · = k) = others.filter (key · = k) := by
        intro k
        have both := same k
        by_cases here : key a = k
        · rw [List.filter_cons_of_pos (by simpa using here),List.filter_cons_of_pos (by simpa using here)] at both
          exact (List.cons.inj both).2
        · rwa [List.filter_cons_of_neg (by simpa using here),List.filter_cons_of_neg (by simpa using here)] at both
      rw [ih up on tails]

def sortedBy (key : α → Nat) (items : List α) : List α := items.mergeSort fun a b => key a ≤ key b

section

variable (key : α → Nat) (items : List α)

theorem sortedBy_rises : (sortedBy key items).Pairwise fun a b => key a ≤ key b := by
  have sorted : (sortedBy key items).Pairwise fun a b => decide (key a ≤ key b) = true :=
    List.pairwise_mergeSort (by simpa using fun _ _ _ => Nat.le_trans) (by simpa using fun _ _ => Nat.le_total _ _) items
  simpa using sorted

theorem sortedBy_perm : (sortedBy key items).Perm items := List.mergeSort_perm _ _

theorem sortedBy_keyed (k : Nat) : (sortedBy key items).filter (key · = k) = items.filter (key · = k) := by
  have level : (items.filter (key · = k)).Pairwise fun a b => decide (key a ≤ key b) = true := by
    refine List.pairwise_of_forall_mem_list fun a here b there => ?_
    simp only [List.mem_filter,decide_eq_true_eq] at here there ⊢
    rw [here.2,there.2]
  have kept : (items.filter (key · = k)).Sublist (sortedBy key items) :=
    List.sublist_mergeSort (by simpa using fun _ _ _ => Nat.le_trans) (by simpa using fun _ _ => Nat.le_total _ _) level List.filter_sublist
  have inside := kept.filter (key · = k)
  simp only [List.filter_filter,Bool.and_self] at inside
  refine (inside.eq_of_length ?_).symm
  exact (((sortedBy_perm key items).filter _).length_eq).symm

theorem sortedBy_of_rises (rises : items.Pairwise fun a b => key a ≤ key b) : sortedBy key items = items :=
  eq_of_keyed (sortedBy_rises key items) rises (sortedBy_keyed key items)

end

namespace Code

variable {lines : List (Nat × Label)} {placed : List Label} {events : List Event} {line : Nat × Label} {l : Label}

-- When a label is placed for the first time. A label that is not placed comes after all the others.
def turn (c : Code) (label : Label) : Nat := c.events.idxOf (.label label)

def ordered (c : Code) : Code := { c with lines := sortedBy (fun line => c.turn line.2) c.lines }

-- A label has all its lines in one place, unless it was placed before.
theorem linesAlong_of (l : Label) : (linesAlong lines placed events).filter (fun line => line.2 = l) =
    if l ∈ placed then [] else lines.filter fun line => line.2 = l := by
  induction events generalizing placed with
  | nil =>
    rw [linesAlong_nil,List.filter_filter]
    split
    · rename_i seen
      refine List.filter_eq_nil_iff.mpr fun line _ both => ?_
      simp only [Bool.and_eq_true,decide_eq_true_eq] at both
      simp [both.1,seen] at both
    · rename_i unseen
      refine List.filter_congr fun line _ => ?_
      by_cases same : line.2 = l <;> simp [same,unseen]
  | cons event rest ih =>
    cases event with
    | insn i =>
      rw [linesAlong_insn,ih]
    | label m =>
      rw [linesAlong_label,List.filter_append,ih]
      by_cases same : m = l
      · subst same
        by_cases seen : m ∈ placed <;> simp [seen,List.filter_filter]
      · have none : (if placed.contains m then [] else lines.filter fun line => line.2 = m).filter (fun line => line.2 = l) = [] := by
          refine List.filter_eq_nil_iff.mpr fun line member => ?_
          split at member
          · cases member
          · simp only [List.mem_filter,decide_eq_true_eq] at member ⊢
            rw [member.2]
            exact same
        rw [none,List.nil_append]
        simp [Ne.symm same]

theorem mem_linesAlong (told : line ∈ linesAlong lines placed events) : line.2 ∉ placed := by
  have among : line ∈ (linesAlong lines placed events).filter (fun other => other.2 = line.2) := by simpa using told
  rw [linesAlong_of] at among
  intro seen
  rw [if_pos seen] at among
  cases among

theorem linesAlong_unplaced {q : Label → Bool} (unplaced : ∀ l, q l = true → .label l ∉ events) :
    (linesAlong lines placed events).filter (fun line => q line.2) =
      lines.filter fun line => q line.2 && !placed.contains line.2 := by
  induction events generalizing placed with
  | nil => rw [linesAlong_nil,List.filter_filter]
  | cons event rest ih =>
    have others : ∀ l, q l = true → .label l ∉ rest := fun l holds member => unplaced l holds (List.mem_cons_of_mem _ member)
    cases event with
    | insn i => rw [linesAlong_insn,ih others]
    | label m =>
      have away : q m = false := Bool.eq_false_iff.mpr fun holds => unplaced m holds List.mem_cons_self
      have none : (if placed.contains m then [] else lines.filter fun line => line.2 = m).filter (fun line => q line.2) = [] := by
        refine List.filter_eq_nil_iff.mpr fun line member => ?_
        split at member
        · cases member
        · simp only [List.mem_filter,decide_eq_true_eq] at member
          simp [member.2,away]
      rw [linesAlong_label,List.filter_append,none,List.nil_append,ih others]
      refine List.filter_congr fun line _ => ?_
      by_cases same : line.2 = m <;> simp [same,away]

theorem linesAlong_rises (lines : List (Nat × Label)) (placed : List Label) (events : List Event) :
    (linesAlong lines placed events).Pairwise fun one two => events.idxOf (.label one.2) ≤ events.idxOf (.label two.2) := by
  induction events generalizing placed with
  | nil => exact List.pairwise_of_forall_mem_list fun _ _ _ _ => Nat.le_refl _
  | cons event rest ih =>
    cases event with
    | insn i =>
      rw [linesAlong_insn]
      refine (ih placed).imp fun le => ?_
      rw [List.idxOf_cons_ne _ (by simp),List.idxOf_cons_ne _ (by simp)]
      exact Nat.succ_le_succ le
    | label m =>
      have first : ∀ line ∈ (if placed.contains m then [] else lines.filter fun line => line.2 = m),
          (Event.label m :: rest).idxOf (.label line.2) = 0 := by
        intro line member
        split at member
        · cases member
        · simp only [List.mem_filter,decide_eq_true_eq] at member
          rw [member.2,List.idxOf_cons_self]
      -- What is told later has other labels.
      have later : ∀ line ∈ linesAlong lines (m :: placed) rest,
          (Event.label m :: rest).idxOf (.label line.2) = rest.idxOf (.label line.2) + 1 := by
        intro line member
        have fresh := mem_linesAlong member
        refine List.idxOf_cons_ne _ fun same => fresh ?_
        cases same
        exact List.mem_cons_self
      rw [linesAlong_label]
      refine List.pairwise_append.mpr ⟨?_,?_,?_⟩
      · refine List.pairwise_of_forall_mem_list fun one here two _ => ?_
        rw [first one here]
        exact Nat.zero_le _
      · refine (ih (m :: placed)).imp_of_mem fun here there le => ?_
        rw [later _ here,later _ there]
        exact Nat.succ_le_succ le
      · intro one here two _
        rw [first one here]
        exact Nat.zero_le _

theorem linesAlong_keyed (code : Code) (k : Nat) :
    (linesAlong code.lines [] code.events).filter (fun line => code.turn line.2 = k) =
      code.lines.filter fun line => code.turn line.2 = k := by
  by_cases known : ∃ l, .label l ∈ code.events ∧ code.turn l = k
  · obtain ⟨l,placed,rfl⟩ := known
    have label : ∀ m, code.turn m = code.turn l ↔ m = l := by
      intro m
      rw [eq_comm,turn,turn,List.idxOf_inj placed,Event.label.injEq,eq_comm]
    simp only [label]
    rw [linesAlong_of,if_neg List.not_mem_nil]
  · have unplaced : ∀ m, decide (code.turn m = k) = true → .label m ∉ code.events :=
      fun m same placed => known ⟨m,placed,of_decide_eq_true same⟩
    rw [linesAlong_unplaced (q := fun m => decide (code.turn m = k)) unplaced]
    simp

theorem ofParts_ordered (code : Code) : ofParts code.parts = code.ordered := by
  have same : linesAlong code.lines [] code.events = code.ordered.lines :=
    eq_of_keyed (linesAlong_rises code.lines [] code.events) (sortedBy_rises _ _)
      fun k => (code.linesAlong_keyed k).trans (sortedBy_keyed _ _ k).symm
  rw [ofParts_told,same]
  rfl

-- A label that is placed twice, one that is not placed, and two lines of one label.
example : (ofParts (parts { events := [.label ⟨1⟩,.label ⟨0⟩,.label ⟨1⟩], lines := [(3,⟨0⟩),(4,⟨2⟩),(5,⟨1⟩),(6,⟨0⟩)] })).lines =
    [(5,⟨1⟩),(3,⟨0⟩),(6,⟨0⟩),(4,⟨2⟩)] := by decide

theorem ordered_ordered (code : Code) : code.ordered.ordered = code.ordered := by
  have sorted : sortedBy (fun line => code.turn line.2) code.ordered.lines = code.ordered.lines :=
    sortedBy_of_rises _ _ (sortedBy_rises _ _)
  exact congrArg (Code.mk code.tryBlocks code.events · code.locals) sorted

end Code

-- Annotations come back as they were, at every depth.

namespace Element

mutual

theorem ofPart_part (name : Option String) (element : Element) : ofPart (part .everything name element) = (name.getD "",element) := by
  cases element with
  | value leaf => rfl
  | enum type constant => rfl
  | annot type values =>
    have inside := ofParts_namedParts values
    exact congrArg (fun values => (name.getD "",Element.annot type values)) inside
  | array items =>
    have inside := ofItemParts_itemParts items
    exact congrArg (fun items => (name.getD "",Element.array items)) inside

theorem ofParts_namedParts (values : List (String × Element)) : ofParts (namedParts .everything values) = values := by
  cases values with
  | nil => rfl
  | cons first rest =>
    obtain ⟨name,element⟩ := first
    rw [namedParts,ofParts,ofPart_part,ofParts_namedParts rest,Option.getD_some]

theorem ofItemParts_itemParts (items : List Element) : ofItemParts (itemParts .everything items) = items := by
  cases items with
  | nil => rfl
  | cons first rest => rw [itemParts,ofItemParts,ofPart_part,ofItemParts_itemParts rest]

end

end Element

namespace AnnotNode

theorem ofDescription_describe (a : AnnotNode) (visible : Bool) : ofDescription (a.describe .everything true visible) = a :=
  (ofDescription_eq _).trans (congrArg (AnnotNode.mk a.type) (Element.ofParts_namedParts a.values))

theorem ofVisibility_map (visible shown : Bool) (annots : List AnnotNode) :
    ofVisibility visible (annots.map (·.describe .everything true shown)) = if shown = visible then annots else [] := by
  rw [ofVisibility]
  split
  · rename_i same
    rw [List.filter_eq_self.mpr (by simp [describe,same]),List.map_map]
    exact List.map_id'' (fun a => ofDescription_describe a shown) _
  · rename_i other
    rw [List.filter_eq_nil_iff.mpr (by simp [describe,other])]
    rfl

theorem ofVisibility_describeAnnots (visible : Bool) (shown hidden : List AnnotNode) :
    ofVisibility visible (describeAnnots .everything true shown hidden) = if visible then shown else hidden := by
  have both : ∀ one two, ofVisibility visible (one ++ two) = ofVisibility visible one ++ ofVisibility visible two := by
    simp [ofVisibility]
  rw [describeAnnots,both,ofVisibility_map,ofVisibility_map]
  cases visible <;> simp

end AnnotNode

def ClassNode.replay (n : ClassNode) : ClassNode := .ofDescription (n.describe .everything)

def MethodNode.ordered (m : MethodNode) : MethodNode := { m with code := m.code.map Code.ordered }

def ClassNode.ordered (n : ClassNode) : ClassNode := { n with methods := n.methods.map MethodNode.ordered }

theorem FieldNode.replayed (f : FieldNode) : ClassNode.field? (f.describe .everything) = some f := by
  have told : ClassNode.field? (f.describe .everything) =
    some (.ofDescription f.header (some (describeAnnots .everything true f.visible f.invisible))) := rfl
  rw [told,FieldNode.ofDescription,Option.getD_some,AnnotNode.ofVisibility_describeAnnots,AnnotNode.ofVisibility_describeAnnots]
  rfl

namespace MethodNode

theorem parts_eq (m : MethodNode) : m.parts .everything =
    (m.default.toList.map fun element => .default (some (Element.itemParts .everything [element]))) ++
      (describeAnnots .everything true m.visible m.invisible).map .annot ++
      (m.parameters.map fun p => .parameter p.1 (p.2.1.describe .everything true p.2.2)) ++
      m.code.toList.map fun code => .code (some code.parts) := rfl

theorem annots_read (m : MethodNode) : (m.parts .everything).filterMap annot? = describeAnnots .everything true m.visible m.invisible := by
  simp [parts_eq,List.filterMap_map,Function.comp_def,annot?]

theorem parameters_read (m : MethodNode) : (m.parts .everything).filterMap parameter? = m.parameters := by
  have only : (m.parts .everything).filterMap parameter? =
      m.parameters.map fun p => (p.1,AnnotNode.ofDescription (p.2.1.describe .everything true p.2.2),p.2.2) := by
    simp [parts_eq,List.filterMap_map,Function.comp_def,parameter?,AnnotNode.describe]
  rw [only]
  exact List.map_id'' (fun p => by rw [AnnotNode.ofDescription_describe]) _

theorem default_read (m : MethodNode) : (m.parts .everything).foldl recordDefault none = m.default := by
  have only : (m.parts .everything).flatMap defaults = m.default.toList := by
    simp [parts_eq,List.flatMap_map,defaults,Element.ofItems,Element.ofItemParts_itemParts]
  rw [foldl_recordDefault,Option.or_none,only]
  cases m.default <;> rfl

theorem code_read (m : MethodNode) : ((m.parts .everything).filterMap code?).getLast? = m.code.map Code.ordered := by
  have only : (m.parts .everything).filterMap code? = (m.code.map Code.ordered).toList := by
    cases given : m.code <;> simp [parts_eq,given,List.filterMap_map,Function.comp_def,code?,Code.ofParts_ordered]
  rw [only]
  cases m.code <;> rfl

theorem replayed (m : MethodNode) : ClassNode.method? (m.describe .everything) = some m.ordered := by
  have told : ClassNode.method? (m.describe .everything) = some (.ofDescription m.header (some (m.parts .everything))) := rfl
  rw [told,ofDescription,Option.getD_some]
  simp only [annots_read,parameters_read,default_read,code_read,AnnotNode.ofVisibility_describeAnnots]
  rfl

theorem ordered_ordered (m : MethodNode) : m.ordered.ordered = m.ordered := by
  have again : (m.code.map Code.ordered).map Code.ordered = m.code.map Code.ordered := by
    cases m.code with
    | none => rfl
    | some code => exact congrArg some code.ordered_ordered
  exact congrArg (MethodNode.mk m.header m.default m.visible m.invisible m.parameters) again

end MethodNode

namespace ClassNode

theorem fields_read (n : ClassNode) : (n.describe .everything).parts.filterMap field? = n.fields := by
  have passed : ∀ m : MethodNode, field? (m.describe .everything) = none := fun _ => rfl
  simp only [describe,List.filterMap_append,List.filterMap_map,Function.comp_def,FieldNode.replayed,passed]
  simp [field?]

theorem methods_read (n : ClassNode) : (n.describe .everything).parts.filterMap method? = n.methods.map MethodNode.ordered := by
  have passed : ∀ f : FieldNode, method? (f.describe .everything) = none := fun _ => rfl
  simp only [describe,List.filterMap_append,List.filterMap_map,Function.comp_def,MethodNode.replayed,passed]
  simp [method?]

theorem others_read (read : ClassPart → Option β) (n : ClassNode) (fields : ∀ header annots, read (.field header annots) = none)
    (methods : ∀ header body, read (.method header body) = none) : (n.describe .everything).parts.filterMap read =
      (n.source.toList.filterMap fun file => read (.source file)) ++ (n.outer.toList.filterMap fun outer => read (.outer outer)) ++
        ((describeAnnots .everything true n.visible n.invisible).filterMap fun a => read (.annot a)) ++
        n.inner.filterMap fun inner => read (.inner inner) := by
  have annots : Interest.everything.classAnnots = true := rfl
  simp [describe,annots,List.filterMap_map,FieldNode.describe,MethodNode.describe,fields,methods]

theorem replay_eq (n : ClassNode) : n.replay = n.ordered := by
  have source : ((n.describe .everything).parts.filterMap source?).getLast? = n.source := by
    rw [others_read source? n (fun _ _ => rfl) fun _ _ => rfl]
    cases n.source <;> simp [source?]
  have outer : ((n.describe .everything).parts.filterMap outer?).getLast? = n.outer := by
    rw [others_read outer? n (fun _ _ => rfl) fun _ _ => rfl]
    cases n.outer <;> simp [outer?]
  have inner : (n.describe .everything).parts.filterMap inner? = n.inner := by
    rw [others_read inner? n (fun _ _ => rfl) fun _ _ => rfl]
    simp [inner?]
  have annots : (n.describe .everything).parts.filterMap annot? = describeAnnots .everything true n.visible n.invisible := by
    rw [others_read annot? n (fun _ _ => rfl) fun _ _ => rfl]
    simp [annot?]
  rw [replay,ofDescription]
  simp only [source,outer,inner,annots,fields_read,methods_read,AnnotNode.ofVisibility_describeAnnots]
  rfl

theorem ordered_ordered (n : ClassNode) : n.ordered.ordered = n.ordered := by
  have again : (n.methods.map MethodNode.ordered).map MethodNode.ordered = n.methods.map MethodNode.ordered := by
    rw [List.map_map]
    exact List.map_congr_left fun m _ => m.ordered_ordered
  exact congrArg (ClassNode.mk n.header n.source n.outer n.inner n.visible n.invisible n.fields) again

end ClassNode

theorem replay_orders_lines (n : ClassNode) :
    n.replay = { n with methods := n.methods.map fun m => { m with code := m.code.map Code.ordered } } ∧
    n.replay.replay = n.replay ∧
    ∀ code : Code, code.ordered.lines.Perm code.lines ∧
      (code.ordered.lines.Pairwise fun one two => code.turn one.2 ≤ code.turn two.2) ∧
      ∀ k, code.ordered.lines.filter (fun line => code.turn line.2 = k) = code.lines.filter fun line => code.turn line.2 = k := by
  refine ⟨n.replay_eq,?_,fun code => ⟨sortedBy_perm _ _,sortedBy_rises _ _,sortedBy_keyed _ _⟩⟩
  rw [n.replay_eq,ClassNode.replay_eq,n.ordered_ordered]

end Restack
