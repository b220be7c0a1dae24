import Mathlib
import Restack.Body.Walk
import Restack.Proofs.Outcome

namespace Restack

-- A walk that comes to an end lays its blocks side by side over the units it passed.

variable {units : CodeUnits} {block : Block} {blocks : List Block} {pc stop fuel a : Nat} {e : Encoded} {walk : Walk}

theorem units_pos (format : Format) : 0 < format.units := by cases format <;> decide

theorem step_block (done : Walk.step units pc = .ok block) :
    block.address = pc ∧ 0 < block.units ∧ ∀ e, block = .instruction pc e → Encoded.decode units pc = .ok e := by
  simp only [Walk.step,bind_eq_ok] at done
  obtain ⟨found,head,done⟩ := done
  split at done
  · rename_i kind length
    cases done
    refine ⟨rfl,?_,fun e same => nomatch same⟩
    simp only [Payload.block?] at head
    split at head
    · cases head
    · simp only [bind_eq_ok,pure_eq_ok,Option.some.injEq,Prod.mk.injEq] at head
      obtain ⟨_,-,-,rfl⟩ := head
      change 0 < Payload.length _ units pc
      unfold Payload.length
      split <;> omega
  · simp only [bind_eq_ok,pure_eq_ok] at done
    obtain ⟨e,decoded,rfl⟩ := done
    refine ⟨rfl,units_pos e.opcode.format,?_⟩
    rintro other ⟨⟩
    exact decoded

theorem go_blocks {fuel : Nat} (member : block ∈ (Walk.go units fuel pc).blocks) :
    pc ≤ block.address ∧ block.address < units.size ∧ Walk.step units block.address = .ok block := by
  induction fuel generalizing pc with
  | zero => cases member
  | succ fuel ih =>
    unfold Walk.go at member
    split at member
    · rename_i inside
      split at member
      · cases member
      · rename_i first stepped
        obtain ⟨here,positive,-⟩ := step_block stepped
        rcases List.mem_cons.mp member with rfl | later
        · exact ⟨Nat.le_of_eq here.symm,here.symm ▸ inside,here.symm ▸ stepped⟩
        · obtain ⟨bound,found⟩ := ih later
          exact ⟨by omega,found⟩
    · cases member

theorem go_sorted (units : CodeUnits) (fuel pc : Nat) :
    (Walk.go units fuel pc).blocks.Pairwise fun one two => one.address < two.address := by
  induction fuel generalizing pc with
  | zero => exact .nil
  | succ fuel ih =>
    unfold Walk.go
    split
    · split
      · exact .nil
      · rename_i first stepped
        obtain ⟨here,positive,-⟩ := step_block stepped
        refine List.pairwise_cons.mpr ⟨?_,ih _⟩
        intro block member
        have bound := (go_blocks member).1
        omega
    · exact .nil

inductive Tiles : Nat → List Block → Nat → Prop where
  | nil {pc : Nat} : Tiles pc [] pc
  | cons {pc stop : Nat} {block : Block} {rest : List Block} : block.address = pc → 0 < block.units →
      Tiles (pc + block.units) rest stop → Tiles pc (block :: rest) stop

def Block.Covers (block : Block) (a : Nat) : Prop := block.address ≤ a ∧ a < block.address + block.units

theorem go_tiles (ends : (Walk.go units fuel pc).ending = .ok stop) : Tiles pc (Walk.go units fuel pc).blocks stop := by
  induction fuel generalizing pc with
  | zero =>
    cases ends
    exact .nil
  | succ fuel ih =>
    unfold Walk.go at ends ⊢
    split at ends
    · rename_i inside
      rw [if_pos inside]
      split at ends
      · cases ends
      · rename_i first stepped
        obtain ⟨here,positive,-⟩ := step_block stepped
        exact .cons here positive (ih ends)
    · rename_i outside
      rw [if_neg outside]
      cases ends
      exact .nil

theorem Tiles.bounds (tiles : Tiles pc blocks stop) (member : block ∈ blocks) :
    pc ≤ block.address ∧ block.address + block.units ≤ stop := by
  have order : ∀ {low high : Nat} {row : List Block}, Tiles low row high → low ≤ high := by
    intro low high row across
    induction across with
    | nil => exact Nat.le_refl _
    | cons _ _ _ ih => omega
  induction tiles with
  | nil => cases member
  | cons here _ rest ih =>
    rcases List.mem_cons.mp member with rfl | later
    · have past := order rest
      omega
    · have bound := ih later
      omega

theorem Tiles.once (tiles : Tiles pc blocks stop) (low : pc ≤ a) (high : a < stop) :
    ∃! block, block ∈ blocks ∧ block.Covers a := by
  induction tiles with
  | nil => omega
  | @cons pc stop first rest here positive others ih =>
    by_cases inside : a < pc + first.units
    · refine ⟨first,⟨List.mem_cons_self,by unfold Block.Covers; omega⟩,?_⟩
      rintro other ⟨member,covers⟩
      rcases List.mem_cons.mp member with rfl | later
      · rfl
      · have bound := (others.bounds later).1
        unfold Block.Covers at covers
        omega
    · obtain ⟨found,⟨member,covers⟩,unique⟩ := ih (by omega) high
      refine ⟨found,⟨List.mem_cons_of_mem _ member,covers⟩,?_⟩
      rintro other ⟨among,holds⟩
      rcases List.mem_cons.mp among with rfl | later
      · unfold Block.Covers at holds
        omega
      · exact unique other ⟨later,holds⟩

theorem block_decode (member : .instruction pc e ∈ (Walk.ofCode units).blocks) : Encoded.decode units pc = .ok e :=
  (step_block (go_blocks member).2.2).2.2 e rfl

theorem mem_starts : a ∈ walk.starts ↔ ∃ e, .instruction a e ∈ walk.blocks := by
  unfold Walk.starts
  rw [List.mem_filterMap]
  constructor
  · rintro ⟨block,member,same⟩
    cases block with
    | data address length => cases same
    | instruction address e =>
      cases same
      exact ⟨e,member⟩
  · rintro ⟨e,member⟩
    exact ⟨_,member,rfl⟩

theorem start_inside (member : a ∈ (Walk.ofCode units).starts) : a < units.size := by
  obtain ⟨e,here⟩ := mem_starts.mp member
  exact (go_blocks here).2.1

theorem starts_sorted (units : CodeUnits) : (Walk.ofCode units).starts.Pairwise (· < ·) := by
  refine List.Pairwise.filterMap _ ?_ (go_sorted units units.size 0)
  intro one two less a first b second
  cases one <;> cases first
  cases two <;> cases second
  exact less

-- What stands at an address decides whether a data block starts there.

theorem step_kind (done : Walk.step units pc = .ok (.instruction pc e)) : Payload.kindOf? (units.unit pc) = none := by
  simp only [Walk.step,bind_eq_ok] at done
  obtain ⟨found,head,done⟩ := done
  split at done
  · cases done
  · simp only [Payload.block?] at head
    split at head
    · assumption
    · simp only [bind_eq_ok,pure_eq_ok] at head
      obtain ⟨_,-,none⟩ := head
      cases none

theorem start_kind (member : a ∈ (Walk.ofCode units).starts) : Payload.kindOf? (units.unit a) = none := by
  obtain ⟨e,here⟩ := mem_starts.mp member
  exact step_kind (go_blocks here).2.2

theorem stop_kind (units : CodeUnits) : Payload.kindOf? (units.unit units.size) = none := by
  simp [CodeUnits.unit,Payload.kindOf?]

end Restack
