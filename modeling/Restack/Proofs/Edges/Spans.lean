import Mathlib
import Restack.Proofs.ForwardJoins
import Restack.Proofs.Lowering.Blocks

namespace Restack

open Lowering

-- Every event of a lowered body comes from one item: it was added between the states
-- before and after the item.

abbrev CodeItem.body (item : CodeItem) (c : Container) (labels : LabelTable) : List BodyItem :=
  (DecodedBody.ofCode c item.units labels).items

variable {c : Container} {shape : MethodShape} {item : CodeItem} {labels : LabelTable} {p : Plan}
  {start final s t u v : State} {items : List BodyItem} {body other : BodyItem} {event : Event} {address j k m n : Nat}
  {label : Label} {opcode : Opcode} {i : Instruction}

structure Spans (p : Plan) (start : State) (items : List BodyItem) (k n : Nat) (body : BodyItem) (s t : State) : Prop where
  here : items[k]? = some body
  before : stateAt p start items k = .ok s
  after : stateAt p start items (k + 1) = .ok t
  low : s.draft.events.size ≤ n
  high : n < t.draft.events.size

theorem Spans.done (spans : Spans p start items k n body s t) : place p s body = .ok t := by
  obtain ⟨_,same,done⟩ := (stateAt_succ spans.here).mp spans.after
  rw [spans.before] at same
  cases same
  exact done

theorem Spans.next (spans : Spans p start items k n body s t) (more : n + 1 < t.draft.events.size) :
    Spans p start items k (n + 1) body s t :=
  ⟨spans.here,spans.before,spans.after,Nat.le_succ_of_le spans.low,more⟩

namespace Lowering

def labelDrops (p : Plan) (address : Nat) (label : Label) (s : State) : List Insn :=
  if isJoin p address label s then popping s.pending else []

theorem label_outline (valid : s.Valid (fun _ => True) p) (done : placeLabel p address label s = .ok t) :
    t.draft.outline = s.draft.outline ++ (labelDrops p address label s).map (fun i => .insn i.untyped) ++ [.label label] := by
  have placed := placeLabel_spec (typed_any p).closed valid done
  have path := beforeLabel_path (P := fun _ => True) p address label s
  rw [placed.settles.outline,Draft.outline_push,path.outline trivial valid]
  rfl

theorem labelDrops_drops : ∀ i ∈ labelDrops p address label s, i.drops = true := by
  unfold labelDrops
  split
  · exact popping_drops s.pending
  · simp

theorem place_outline (valid : s.Valid (fun _ => True) p) (done : place p s body = .ok t) :
    s.draft.outline <+: t.draft.outline := by
  cases body with
  | label address label =>
    rw [label_outline valid done,List.append_assoc]
    exact List.prefix_append _ _
  | instruction address opcode i =>
    obtain ⟨m,parts,block,u,placed⟩ := placeInstruction_spec (typed_any p).closed valid (fun _ _ => trivial) done
    have outline := placed.path.outline trivial valid
    obtain rfl := placed.result
    exact outline ▸ List.prefix_append _ _

end Lowering

theorem untyped_drops (i : Insn) : i.untyped.drops = i.drops := by cases i <;> rfl

theorem drops_of_untyped {i j : Insn} (same : i.untyped = j.untyped) : i.drops = j.drops := by
  rw [← untyped_drops i,same,untyped_drops]

namespace Translates

variable (way : Translates c shape item labels p start final)
include way

theorem ends : ∃ last, Finished (fun _ => True) p start (item.body c labels) last final :=
  finish_spec (typed_any p) trivial (fun body _ => itemTyped_any p body) way.start_valid way.finished

theorem start_tended : Tended start.draft := by
  rw [way.planned.first]
  exact ⟨[],patched_empty⟩

theorem stateAt_tended (here : stateAt p start items k = .ok s) : Tended s.draft := way.start_tended.run way.start_valid here

theorem stateAt_outline (here : stateAt p start items k = .ok s) (there : stateAt p start items j = .ok t) (before : k ≤ j) :
    s.draft.outline <+: t.draft.outline := by
  refine stateAt_keeps (I := fun m => s.draft.outline <+: m.draft.outline) here (List.prefix_refl _) ?_ before there
  intro n body m u _ _ reached grown done
  exact grown.trans (place_outline (way.stateAt_valid reached) done)

theorem stateAt_size (here : stateAt p start items k = .ok s) (there : stateAt p start items j = .ok t) (before : k ≤ j) :
    s.draft.events.size ≤ t.draft.events.size := by
  simpa using (way.stateAt_outline here there before).length_le

-- What is known at any place is still known when all groups have their types.

theorem to_end (k : Nat) :
    ∃ last, Finished (fun _ => True) p start (item.body c labels) last final ∧
      stateAt p start (item.body c labels) (max k (item.body c labels).length) = .ok last := by
  obtain ⟨last,ends⟩ := way.ends
  exact ⟨last,ends,(stateAt_past (Nat.le_max_right _ _)).trans ends.ran⟩

theorem final_extends (here : stateAt p start (item.body c labels) k = .ok s) : s.draft.Extends final.draft := by
  obtain ⟨last,ends,there⟩ := way.to_end k
  have grown := stateAt_extends (typed_any p) (fun body _ => itemTyped_any p body) way.start_valid (Nat.le_max_left _ _) here there
  exact grown.trans (ends.settles.extends (way.stateAt_valid there).draft)

theorem final_outline (here : stateAt p start (item.body c labels) k = .ok s) : s.draft.outline <+: final.draft.outline := by
  obtain ⟨last,ends,there⟩ := way.to_end k
  rw [ends.settles.outline]
  exact way.stateAt_outline here there (Nat.le_max_left _ _)

theorem spans (inside : n < final.draft.events.size) : ∃ k body s t, Spans p start (item.body c labels) k n body s t := by
  obtain ⟨last,ends⟩ := way.ends
  -- The first place whose state has the event.
  have reached : ∀ j u, stateAt p start (item.body c labels) j = .ok u → n < u.draft.events.size →
      ∃ k body s t, Spans p start (item.body c labels) k n body s t := by
    intro j
    induction j with
    | zero =>
      intro u there here
      cases there
      rw [way.planned.first] at here
      exact absurd here (Nat.not_lt_zero n)
    | succ j ih =>
      intro u there here
      rcases stateAt_next there with ⟨-,same⟩ | ⟨body,s,found,before,-⟩
      · exact ih u same here
      · by_cases earlier : n < s.draft.events.size
        · exact ih s before earlier
        · exact ⟨j,body,s,u,found,before,there,Nat.le_of_not_lt earlier,here⟩
  refine reached _ last ((stateAt_past (Nat.le_refl _)).trans ends.ran) ?_
  rw [← Draft.outline_length] at inside ⊢
  rwa [ends.settles.outline] at inside

theorem spans_unique (one : Spans p start items k n body s t) (two : Spans p start items j n other u v) :
    k = j ∧ body = other ∧ s = u ∧ t = v := by
  have ordered : ∀ {k j : Nat} {one two : BodyItem} {s t u v : State}, Spans p start items k n one s t →
      Spans p start items j n two u v → ¬k < j := by
    intro k j one two s t u v first second less
    have grown := way.stateAt_size first.after second.before less
    have high := first.high
    have low := second.low
    omega
  obtain rfl : k = j := by
    have left := ordered one two
    have right := ordered two one
    omega
  have same := one.here.symm.trans two.here
  have before := one.before.symm.trans two.before
  have after := one.after.symm.trans two.after
  cases same
  cases before
  cases after
  exact ⟨rfl,rfl,rfl,rfl⟩

theorem span_event (spans : Spans p start (item.body c labels) k n body s t) (found : final.draft.events[n]? = some event) :
    t.draft.outline[n]? = some event.untyped := by
  obtain ⟨rest,whole⟩ := way.final_outline spans.after
  have inside : n < t.draft.outline.length := by rw [Draft.outline_length]; exact spans.high
  rw [← List.getElem?_append_left inside,whole]
  simp [Draft.outline,found]

theorem span_label (spans : Spans p start (item.body c labels) k n (.label address label) s t)
    (found : final.draft.events[n]? = some event) :
    (n + 1 = t.draft.events.size ∧ event = .label label) ∨
      (n + 1 < t.draft.events.size ∧ s.pending ≠ none ∧ ∃ i, event = .insn i ∧ i.drops = true) := by
  have outline := label_outline (way.stateAt_valid spans.before) spans.done
  have shown := way.span_event spans found
  have size : t.draft.events.size = s.draft.events.size + (labelDrops p address label s).length + 1 := by
    rw [← Draft.outline_length,outline]
    simp [Nat.add_assoc]
  have low := spans.low
  have high := spans.high
  rw [outline,List.append_assoc,List.getElem?_append_right (by simpa using low),Draft.outline_length] at shown
  by_cases last : n + 1 = t.draft.events.size
  · refine .inl ⟨last,?_⟩
    rw [List.getElem?_append_right (by simp; omega),List.length_map,show n - s.draft.events.size -
      (labelDrops p address label s).length = 0 by omega] at shown
    cases event with
    | label other => simpa [Event.untyped] using shown.symm
    | insn i => simp [Event.untyped] at shown
  · refine .inr ⟨by omega,?_,?_⟩
    · intro none
      have empty : (labelDrops p address label s).length = 0 := by
        unfold labelDrops
        split <;> simp [popping,none]
      omega
    · rw [List.getElem?_append_left (by simp; omega),List.getElem?_map] at shown
      obtain ⟨i,member,same⟩ := Option.map_eq_some_iff.mp shown
      have drops := labelDrops_drops i (List.mem_of_getElem? member)
      cases event with
      | label other => cases same
      | insn j =>
        refine ⟨j,rfl,?_⟩
        rw [← drops]
        exact drops_of_untyped (Event.insn.inj same).symm

theorem span_instruction (spans : Spans p start (item.body c labels) k n (.instruction address opcode i) s t)
    (found : final.draft.events[n]? = some event) :
    ∃ m parts block u insn, InstructionPlaced (fun _ => True) p address i s m parts block u t ∧ event = .insn insn ∧
      ((n < m.draft.events.size ∧ insn.drops = true) ∨ ∃ q old, n = m.draft.events.size + q ∧ block[q]? = some old ∧ insn.untyped = old.untyped) := by
  have valid := way.stateAt_valid spans.before
  obtain ⟨m,parts,block,u,placed⟩ := placeInstruction_spec (typed_any p).closed valid (fun _ _ => trivial) spans.done
  have ready := placed.cleared.valid trivial valid
  have cleared := placed.cleared.outline trivial valid
  have lowered := placed.lowered.path.outline trivial ready
  have shown := way.span_event spans found
  have low := spans.low
  have same : t.draft = u.draft := by rw [placed.result]
  rw [same,lowered] at shown
  refine ⟨m,parts,block,u,?_⟩
  rw [List.getElem?_append] at shown
  split at shown
  · rename_i early
    rw [cleared,List.getElem?_append_right (by simpa using low),List.getElem?_map] at shown
    obtain ⟨old,member,form⟩ := Option.map_eq_some_iff.mp shown
    have drops := dropping_drops s.pending old (List.mem_of_getElem? member)
    cases event with
    | label other => cases form
    | insn insn =>
      rw [Draft.outline_length] at early
      refine ⟨insn,placed,rfl,.inl ⟨early,?_⟩⟩
      rw [← drops]
      exact drops_of_untyped (Event.insn.inj form).symm
  · rename_i late
    rw [List.getElem?_map,Draft.outline_length] at shown
    rw [Draft.outline_length] at late
    obtain ⟨old,member,form⟩ := Option.map_eq_some_iff.mp shown
    cases event with
    | label other => cases form
    | insn insn => exact ⟨insn,placed,rfl,.inr ⟨_,old,by omega,member,(Event.insn.inj form).symm⟩⟩

theorem label_spans (found : final.draft.events[m]? = some (.label label)) :
    ∃ j address s t, Spans p start (item.body c labels) j m (.label address label) s t ∧ m + 1 = t.draft.events.size := by
  obtain ⟨j,body,s,t,spans⟩ := way.spans (Array.getElem?_eq_some_iff.mp found).1
  cases body with
  | label address other =>
    rcases way.span_label spans found with ⟨last,same⟩ | ⟨-,-,i,same,-⟩
    · cases same
      exact ⟨j,address,s,t,spans,last⟩
    · cases same
  | instruction address opcode i =>
    obtain ⟨m,parts,block,u,insn,-,same,-⟩ := way.span_instruction spans found
    cases same

end Translates

end Restack
