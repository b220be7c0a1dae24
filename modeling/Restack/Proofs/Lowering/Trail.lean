import Mathlib
import Restack.Proofs.Lowering.Run

namespace Restack.Lowering

open Draft (Extends)

-- The states that lowering goes through: one before each item, and the last one.

variable {P : Descriptor → Prop} {p : Plan} {start s t : State} {items : List BodyItem} {item : BodyItem} {k j : Nat}
  {address : Nat} {label : Label}

def stateAt (p : Plan) (start : State) (items : List BodyItem) (k : Nat) : Except Fault State :=
  (items.take k).foldlM (place p) start

theorem stateAt_zero : stateAt p start items 0 = .ok start := rfl

theorem stateAt_succ (here : items[k]? = some item) :
    stateAt p start items (k + 1) = .ok t ↔ ∃ s, stateAt p start items k = .ok s ∧ place p s item = .ok t := by
  simp only [stateAt,List.take_add_one,here,Option.toList_some]
  exact foldlM_snoc_ok

theorem stateAt_past (past : items.length ≤ k) : stateAt p start items k = items.foldlM (place p) start := by
  rw [stateAt,List.take_of_length_le past]

theorem stateAt_next (there : stateAt p start items (k + 1) = .ok t) :
    items.length ≤ k ∧ stateAt p start items k = .ok t ∨
      ∃ item s, items[k]? = some item ∧ stateAt p start items k = .ok s ∧ place p s item = .ok t := by
  cases found : items[k]? with
  | none =>
    have past := List.getElem?_eq_none_iff.mp found
    rw [stateAt_past (Nat.le_succ_of_le past),← stateAt_past past] at there
    exact .inl ⟨past,there⟩
  | some item =>
    obtain ⟨s,reached,placed⟩ := (stateAt_succ found).mp there
    exact .inr ⟨item,s,rfl,reached,placed⟩

theorem stateAt_before (there : stateAt p start items j = .ok t) (before : k ≤ j) : ∃ s, stateAt p start items k = .ok s := by
  have first : items.take k = (items.take j).take k := by rw [List.take_take,Nat.min_eq_left before]
  unfold stateAt at there
  rw [← List.take_append_drop k (items.take j),← first,foldlM_append_ok] at there
  obtain ⟨s,here,-⟩ := there
  exact ⟨s,here⟩

theorem stateAt_ok (ran : items.foldlM (place p) start = .ok t) (k : Nat) : ∃ s, stateAt p start items k = .ok s := by
  rcases Nat.le_total k items.length with inside | past
  · exact stateAt_before ((stateAt_past (Nat.le_refl _)).trans ran) inside
  · exact ⟨t,(stateAt_past past).trans ran⟩

theorem stateAt_keeps {I : State → Prop} (here : stateAt p start items k = .ok s) (holds : I s)
    (step : ∀ n item s t, k ≤ n → items[n]? = some item → stateAt p start items n = .ok s → I s →
      place p s item = .ok t → I t)
    (before : k ≤ j) (there : stateAt p start items j = .ok t) : I t := by
  induction j, before using Nat.le_induction generalizing t with
  | base =>
    rw [here] at there
    cases there
    exact holds
  | succ n later ih =>
    rcases stateAt_next there with ⟨-,there⟩ | ⟨item,m,found,reached,placed⟩
    · exact ih there
    · exact step n item m t later found reached (ih reached) placed

theorem stateAt_valid (typed : p.Typed P) (all : ∀ item ∈ items, ItemTyped P p item) (valid : start.Valid P p)
    (here : stateAt p start items k = .ok s) : s.Valid P p :=
  run_valid typed (fun item member => all item (List.mem_of_mem_take member)) valid here

-- What is known of groups stays known.

theorem beforeLabel_path (p : Plan) (address : Nat) (label : Label) (s : State) :
    Evolves P s (if isJoin p address label s then popping s.pending else []) (beforeLabel p address label s) := by
  unfold beforeLabel
  split
  · exact (discardPending_spec s).1
  · exact .refl

theorem place_extends (typed : p.Typed P) (here : ItemTyped P p item) (valid : s.Valid P p) (done : place p s item = .ok t) :
    Extends s.draft t.draft := by
  cases item with
  | label address label =>
    have placed := placeLabel_spec typed.closed valid done
    have before : (beforeLabel p address label s).Valid P p := beforeLabel_valid typed.closed valid
    have dropped := (beforeLabel_path (P := P) p address label s).extends typed.closed.int valid
    exact (dropped.trans (Draft.extends_push _ _)).trans (placed.settles.extends (sound_push before.draft _))
  | instruction address opcode i =>
    obtain ⟨m,parts,block,u,placed⟩ := placeInstruction_spec typed.closed valid here done
    have path := placed.path.extends typed.closed.int valid
    obtain rfl := placed.result
    exact path

theorem stateAt_extends (typed : p.Typed P) (all : ∀ item ∈ items, ItemTyped P p item) (valid : start.Valid P p)
    (before : k ≤ j) (here : stateAt p start items k = .ok s) (there : stateAt p start items j = .ok t) :
    Extends s.draft t.draft := by
  refine stateAt_keeps (I := fun m => Extends s.draft m.draft) here (.refl _) ?_ before there
  intro n item m u _ found reached grown placed
  have known := stateAt_valid typed all valid reached
  exact grown.trans (place_extends typed (all item (List.mem_of_getElem? found)) known placed)

end Restack.Lowering
