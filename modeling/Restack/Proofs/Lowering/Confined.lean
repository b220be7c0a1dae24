import Mathlib
import Restack.Proofs.Lowering.Blocks
import Restack.Proofs.Lowering.Drafted
import Restack.Proofs.Lowering.Thin
import Restack.Proofs.Lowering.Trail

namespace Restack

open Lowering

-- What a state of lowering refers to. Sites lie among its events, and frames are
-- stored for labels that control can come to, which `K` holds of.

variable {K : Label → Prop} {P : Descriptor → Prop} {p : Plan} {start s t : State} {log : List Insn}
  {label : Label} {labels : List Label} {arrival : Arrival} {n : Nat} {f : Frame} {item : BodyItem} {items : List BodyItem}

namespace Lowering

-- Frames are stored where control arrives.

def State.StoresIn (K : Label → Prop) (s : State) : Prop := ∀ n f, s.joins.get? n = some f → K ⟨n⟩

theorem arrive_joins (done : s.arrive label arrival = .ok t) : ∃ joined, t.joins = NatMap.insert label.number joined s.joins := by
  rcases arrive_ok.mp done with ⟨-,rfl⟩ | ⟨stored,joined,d,-,-,rfl⟩
  · exact ⟨s.frame,rfl⟩
  · exact ⟨joined,rfl⟩

theorem State.StoresIn.arriveAll (stores : s.StoresIn K) (all : ∀ label ∈ labels, K label)
    (done : s.arriveAll labels arrival = .ok t) : t.StoresIn K := by
  unfold State.arriveAll at done
  refine foldlM_keeps (P := State.StoresIn K) ?_ stores done
  intro m label u member before arrived n f found
  obtain ⟨joined,same⟩ := arrive_joins arrived
  rw [same,NatMap.get?_insert] at found
  split at found
  · rename_i here
    rw [here]
    exact all label member
  · exact before n f found

theorem State.StoresIn.traced (stores : s.StoresIn K) (all : ∀ i ∈ log, ∀ label ∈ i.targets, K label)
    (traced : Traced P p s log t) : t.StoresIn K := by
  have snoc : ∀ {log : List Insn} {i : Insn}, (∀ j ∈ log ++ [i], ∀ label ∈ j.targets, K label) →
      (∀ j ∈ log, ∀ label ∈ j.targets, K label) ∧ ∀ label ∈ i.targets, K label := by
    intro log i all
    exact ⟨fun j member => all j (List.mem_append_left _ member),all i (List.mem_append_right _ (List.mem_singleton_self _))⟩
  induction traced with
  | refl => exact stores
  | quiet _ _ _ joins ih =>
    unfold State.StoresIn
    rw [joins]
    exact ih all
  | code _ same arrived _ _ joins _ ih =>
    obtain ⟨before,here⟩ := snoc all
    unfold State.StoresIn
    rw [joins]
    exact (ih before).arriveAll (fun label member => here label ((same label).mp member)) arrived
  | load _ _ _ ih => exact ih (snoc all).1
  | look _ _ _ _ ih => exact ih (snoc all).1
  | store _ _ _ _ joins ih =>
    unfold State.StoresIn
    rw [joins]
    exact ih (snoc all).1

structure State.Confined (K : Label → Prop) (s : State) : Prop where
  bounded : s.draft.Bounded
  stores : s.StoresIn K

def ItemLeads (p : Plan) (label : Label) : BodyItem → Prop
  | .label address here => label = here ∧ ((p.labels.entry? address).map LabelEntry.jumpTarget).getD false = true
  | .instruction address _ i => label ∈ i.targets ∨ label ∈ p.handlers.covering address

theorem State.StoresIn.place (typed : p.Typed P) (here : ItemTyped P p item) (valid : s.Valid P p) (stores : s.StoresIn K)
    (all : ∀ label, ItemLeads p label item → K label) (done : place p s item = .ok t) : t.StoresIn K := by
  cases item with
  | label address label =>
    have placed := placeLabel_spec typed.closed valid done
    intro n f found
    by_cases same : n = label.number
    · cases join : isJoin p address label s with
      | true =>
        rcases Bool.or_eq_true_iff.mp join with marked | stored
        · rw [same]
          exact all label ⟨rfl,marked⟩
        · obtain ⟨g,known⟩ := Option.isSome_iff_exists.mp stored
          exact same ▸ stores _ g known
      | false =>
        obtain rfl := placeLabel_plain join done
        exact stores n f found
    · rw [placed.others n same,(beforeLabel_same p address label s).1] at found
      exact stores n f found
  | instruction address opcode i =>
    obtain ⟨m,parts,block,u,placed⟩ := placeInstruction_spec typed.closed valid here done
    have dropped : State.StoresIn K (if takesPending i then s else s.discardPending) := by
      split
      · exact stores
      · unfold State.StoresIn
        rw [(discardPending_spec (P := P) s).2.2.2.1]
        exact stores
    have heard := dropped.arriveAll (fun label member => all label (.inr member)) placed.heard
    have stepped := heard.traced (fun insn member label target => all label (.inl (placed.lowered.targets member target)))
      placed.lowered.trace
    obtain rfl := placed.result
    exact stepped

theorem stateAt_confined {k : Nat} (valid : start.Valid (fun _ => True) p) (first : start = { frame := start.frame })
    (all : ∀ item ∈ items, ∀ label, ItemLeads p label item → K label) (here : stateAt p start items k = .ok s) : s.Confined K := by
  have bounded := (run_reaches here).drafts bounded_kept
  have both : s.Valid (fun _ => True) p ∧ s.StoresIn K := by
    refine foldlM_keeps (P := fun s => s.Valid (fun _ => True) p ∧ s.StoresIn K) ?_ ⟨valid,?_⟩ here
    · rintro m item u member ⟨known,stores⟩ done
      have given := itemTyped_any p item
      exact ⟨place_valid (typed_any p) given known done,
        stores.place (typed_any p) given known (all item (List.mem_of_mem_take member)) done⟩
    · rw [first]
      intro n f found
      simp [NatMap.get?] at found
  refine ⟨bounded ?_,both.2⟩
  rw [first]
  exact Draft.bounded_empty

end Lowering

end Restack
