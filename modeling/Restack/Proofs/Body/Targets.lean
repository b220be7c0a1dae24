import Mathlib
import Restack.Proofs.Body.Labels

namespace Restack

-- Where control can go, and the items of a body in their order. Every label that
-- an instruction names as a target was marked by the first pass, so lowering
-- knows it for a place where paths meet.

def Instruction.targets : Instruction → List Label
  | .goto target | .test _ _ _ target | .testZero _ _ target => [target]
  | .packedSwitch _ _ targets next => targets ++ [next]
  | .sparseSwitch _ pairs next => pairs.map Prod.snd ++ [next]
  | _ => []

-- A label that control can come to other than from the instruction before.
def LabelTable.Targeted (t : LabelTable) (label : Label) : Prop :=
  ∃ a entry, t.entry? a = some entry ∧ entry.label = label ∧ entry.jumpTarget = true

variable {c : Container} {code : CodeItem} {units : CodeUnits} {t : LabelTable} {e : Encoded} {pc a : Nat}
  {i : Instruction} {label : Label} {block : Block} {item : BodyItem} {opcode : Opcode}

-- The operand of a branch is a distance, and that of a switch is the distance of its table.

def isBranch : Operation → Bool
  | .goto | .test _ | .testZero _ => true
  | _ => false

def isSwitch : Operation → Bool
  | .packedSwitch | .sparseSwitch => true
  | _ => false

def isBranchFormat : Format → Bool
  | .f10t | .f20t | .f30t | .f21t | .f22t => true
  | _ => false

def Opcode.layoutFits (opcode : Opcode) : Bool :=
  (!isBranch opcode.operation || isBranchFormat opcode.format) &&
    (!isSwitch opcode.operation || opcode.format = .f31t)

theorem opcodes_fit : ∀ run ∈ Opcode.runs, ∀ opcode ∈ run.2, opcode.layoutFits = true := by decide

theorem ofByte_row {value : Nat} (found : Opcode.ofByte? value = some opcode) : ∃ run ∈ Opcode.runs, opcode ∈ run.2 := by
  obtain ⟨⟨start,rows⟩,member,here⟩ := List.exists_of_findSome?_eq_some found
  dsimp only at here
  split at here
  · exact ⟨_,member,List.mem_of_getElem? here⟩
  · cases here

theorem decode_row (done : Encoded.decode units pc = .ok e) : ∃ run ∈ Opcode.runs, e.opcode ∈ run.2 := by
  simp only [Encoded.decode] at done
  split at done
  · simp at done
  · rename_i opcode found
    simp only [bind_eq_ok,guard_eq_ok,pure_eq_ok] at done
    obtain ⟨_,-,-,rfl⟩ := done
    exact ofByte_row found

theorem decode_fits (done : Encoded.decode units pc = .ok e) : e.opcode.layoutFits = true := by
  obtain ⟨run,member,opcode⟩ := decode_row done
  exact opcodes_fit run member e.opcode opcode

theorem blocks_fit (member : .instruction pc e ∈ (Walk.ofCode units).blocks) : e.opcode.layoutFits = true := by
  have stepped := (go_blocks member).2.2
  exact decode_fits ((step_block stepped).2.2 e rfl)

theorem branchLabel_entry (done : t.branchLabel a = .ok label) :
    ∃ entry, t.entry? a = some entry ∧ entry.label = label := by
  unfold LabelTable.branchLabel at done
  split at done
  · rename_i found
    cases done
    exact ⟨_,found,rfl⟩
  · simp at done
  · simp at done

theorem branchLabel_targeted (marked : t.Marked a) (done : t.branchLabel a = .ok label) : t.Targeted label := by
  obtain ⟨entry,found,same⟩ := branchLabel_entry done
  obtain ⟨other,again,mark⟩ := marked
  rw [found] at again
  cases again
  exact ⟨a,entry,found,same,mark⟩

-- A branch and the default of a switch go where the first pass has put a mark.

theorem LabelTable.Laid.branch_marked (laid : t.Laid code) (member : .instruction pc e ∈ (Walk.ofCode code.units).blocks)
    (branch : isBranch e.opcode.operation = true) :
    ∃ address, Payload.target pc e.operands.literal code.units.size = .ok address ∧ t.Marked address := by
  obtain ⟨found,here,marked⟩ := laid.targets _ member
  have fits := blocks_fit member
  simp only [Opcode.layoutFits,branch,Bool.not_true,Bool.false_or,Bool.and_eq_true] at fits
  have format := fits.1
  cases shape : e.opcode.format <;> simp [shape,isBranchFormat] at format <;>
    simp only [CodeReferences.ofBlock,shape,bind_eq_ok,pure_eq_ok] at here <;>
    (obtain ⟨address,reached,rfl⟩ := here; exact ⟨address,reached,marked address List.mem_cons_self⟩)

theorem LabelTable.Laid.next_marked (laid : t.Laid code) (member : .instruction pc e ∈ (Walk.ofCode code.units).blocks)
    (isTable : isSwitch e.opcode.operation = true) : t.Marked (pc + e.units) := by
  obtain ⟨found,here,marked⟩ := laid.targets _ member
  have fits := blocks_fit member
  simp only [Opcode.layoutFits,isTable,Bool.not_true,Bool.false_or,Bool.and_eq_true,decide_eq_true_eq] at fits
  have other : e.opcode.operation ≠ .fillArrayData := by
    intro same
    simp [same,isSwitch] at isTable
  simp only [CodeReferences.ofBlock,fits.2,bind_eq_ok,guard_eq_ok,pure_eq_ok,other,if_false] at here
  obtain ⟨address,-,-,rfl⟩ := here
  exact marked _ List.mem_cons_self

theorem branch_targeted (laid : t.Laid code) (member : .instruction pc e ∈ (Walk.ofCode code.units).blocks)
    (branch : isBranch e.opcode.operation = true) (done : e.branch t pc = .ok label) : t.Targeted label := by
  simp only [Encoded.branch,Encoded.target,bind_eq_ok,laid.stop] at done
  obtain ⟨address,reached,named⟩ := done
  obtain ⟨other,same,marked⟩ := laid.branch_marked member branch
  rw [reached] at same
  cases same
  exact branchLabel_targeted marked named

theorem next_targeted (laid : t.Laid code) (member : .instruction pc e ∈ (Walk.ofCode code.units).blocks)
    (isTable : isSwitch e.opcode.operation = true) (named : t.branchLabel (pc + e.units) = .ok label) : t.Targeted label :=
  branchLabel_targeted (laid.next_marked member isTable) named

theorem payloadAt_targets {payload : Payload} (laid : t.Laid code) (done : t.payloadAt a = .ok payload) :
    ∀ b ∈ payload.targets, t.Marked b := by
  unfold LabelTable.payloadAt at done
  split at done
  · rename_i found has
    cases done
    obtain ⟨entry,here,holds⟩ := Option.bind_eq_some_iff.mp has
    exact laid.payloads a entry payload here holds
  · simp at done

-- The items of a body: labels of their addresses, and instructions of the walk.

def BodyItem.address : BodyItem → Nat
  | .label address _ => address
  | .instruction address _ _ => address

def ItemOf (c : Container) (units : CodeUnits) (t : LabelTable) : BodyItem → Prop
  | .label address label => t.labelAt? address = some label
  | .instruction pc opcode i =>
    ∃ e, .instruction pc e ∈ (Walk.ofCode units).blocks ∧ e.resolve c t pc = .ok i ∧ opcode = e.opcode

theorem labelItems_label (member : item ∈ DecodedBody.labelItems t a) :
    ∃ label, item = .label a label ∧ t.labelAt? a = some label := by
  unfold DecodedBody.labelItems at member
  cases found : t.labelAt? a with
  | none => simp [found] at member
  | some label => exact ⟨label,by simpa [found] using member,rfl⟩

theorem ofBlocks_items {blocks : List Block} {after : DecodedBody}
    (inside : ∀ block ∈ blocks, block ∈ (Walk.ofCode units).blocks)
    (rest : ∀ item ∈ after.items, ItemOf c units t item) (item : BodyItem)
    (member : item ∈ (DecodedBody.ofBlocks c t after blocks).items) : ItemOf c units t item := by
  have labels : ∀ a, item ∈ DecodedBody.labelItems t a → ItemOf c units t item := by
    intro a found
    obtain ⟨label,rfl,known⟩ := labelItems_label found
    exact known
  induction blocks with
  | nil => exact rest item member
  | cons block blocks ih =>
    have further := ih fun block member => inside block (List.mem_cons_of_mem _ member)
    cases block with
    | data address length => exact further member
    | instruction pc e =>
      unfold DecodedBody.ofBlocks at member
      split at member
      · exact labels pc member
      · rename_i i resolved
        simp only [DecodedBody.prepend,List.mem_append,List.mem_singleton] at member
        rcases member with (label | rfl) | later
        · exact labels pc label
        · exact ⟨e,inside _ List.mem_cons_self,within_eq_ok.mp resolved,rfl⟩
        · exact further later

theorem ofCode_items (laid : t.Laid code) (member : item ∈ (DecodedBody.ofCode c code.units t).items) :
    ItemOf c code.units t item := by
  refine ofBlocks_items (fun _ present => present) ?_ item member
  intro item member
  unfold DecodedBody.last at member
  split at member
  · cases member
  · obtain rfl := List.mem_singleton.mp member
    obtain ⟨entry,found⟩ := laid.last
    have known : t.labelAt? t.stop = some entry.label := by simp [LabelTable.labelAt?,found]
    simp [ItemOf,LabelTable.stopLabel,known]

-- Items come in address order, a label before the instruction at its address.

def BodyItem.place : BodyItem → Nat
  | .label address _ => 2 * address
  | .instruction address _ _ => 2 * address + 1

theorem BodyItem.place_address (item : BodyItem) : 2 * item.address ≤ item.place ∧ item.place ≤ 2 * item.address + 1 := by
  cases item with
  | label address label => exact ⟨Nat.le_refl _,Nat.le_succ _⟩
  | instruction address opcode i => exact ⟨Nat.le_succ _,Nat.le_refl _⟩

theorem labelItems_place {pc : Nat} {item : BodyItem} (member : item ∈ DecodedBody.labelItems t pc) : item.place = 2 * pc := by
  obtain ⟨label,rfl,-⟩ := labelItems_label member
  rfl

theorem labelItems_placed (t : LabelTable) (pc : Nat) :
    (DecodedBody.labelItems t pc).Pairwise fun one two => one.place < two.place := by
  unfold DecodedBody.labelItems
  cases (t.labelAt? pc).map (BodyItem.label pc) with
  | none => exact .nil
  | some item => exact List.pairwise_singleton _ _

theorem itemsAt_placed (t : LabelTable) (pc : Nat) (opcode : Opcode) (i : Instruction) :
    (DecodedBody.labelItems t pc ++ [BodyItem.instruction pc opcode i]).Pairwise (fun one two => one.place < two.place) ∧
      ∀ item ∈ DecodedBody.labelItems t pc ++ [.instruction pc opcode i], 2 * pc ≤ item.place ∧ item.place < 2 * (pc + 1) := by
  constructor
  · refine List.pairwise_append.mpr ⟨labelItems_placed t pc,List.pairwise_singleton _ _,?_⟩
    intro one member two instruction
    obtain rfl := List.mem_singleton.mp instruction
    rw [labelItems_place member]
    exact Nat.lt_succ_self _
  · intro item member
    rcases List.mem_append.mp member with label | instruction
    · rw [labelItems_place label]
      omega
    · obtain rfl := List.mem_singleton.mp instruction
      exact ⟨Nat.le_succ _,Nat.lt_succ_self _⟩

theorem ofBlocks_placed {blocks : List Block} {after : DecodedBody} (start : Nat)
    (sorted : blocks.Pairwise fun one two => one.address < two.address) (bound : ∀ block ∈ blocks, start ≤ block.address)
    (last : after.items.Pairwise fun one two => one.place < two.place)
    (beyond : ∀ item ∈ after.items, (∀ block ∈ blocks, 2 * block.address + 1 < item.place) ∧ 2 * start ≤ item.place) :
    (DecodedBody.ofBlocks c t after blocks).items.Pairwise (fun one two => one.place < two.place) ∧
      ∀ item ∈ (DecodedBody.ofBlocks c t after blocks).items, 2 * start ≤ item.place := by
  induction blocks generalizing start with
  | nil => exact ⟨last,fun item member => (beyond item member).2⟩
  | cons block blocks ih =>
    obtain ⟨first,others⟩ := List.pairwise_cons.mp sorted
    have low := bound block List.mem_cons_self
    obtain ⟨ordered,above⟩ := ih (block.address + 1) others (fun next member => first next member) fun item member =>
      ⟨fun next later => (beyond item member).1 next (List.mem_cons_of_mem _ later),
        (beyond item member).1 block List.mem_cons_self⟩
    have higher : 2 * start ≤ 2 * (block.address + 1) := by omega
    cases block with
    | data address length => exact ⟨ordered,fun item member => Nat.le_trans higher (above item member)⟩
    | instruction pc e =>
      unfold DecodedBody.ofBlocks
      split
      · refine ⟨labelItems_placed t pc,fun item member => ?_⟩
        rw [labelItems_place member]
        exact Nat.mul_le_mul_left 2 low
      · rename_i i resolved
        obtain ⟨here,close⟩ := itemsAt_placed t pc e.opcode i
        constructor
        · refine List.pairwise_append.mpr ⟨here,ordered,?_⟩
          intro one member two later
          exact Nat.lt_of_lt_of_le (close one member).2 (above two later)
        · intro item member
          rcases List.mem_append.mp member with now | later
          · exact Nat.le_trans (Nat.mul_le_mul_left 2 low) (close item now).1
          · exact Nat.le_trans higher (above item later)

theorem ofCode_placed (laid : t.Laid code) :
    (DecodedBody.ofCode c code.units t).items.Pairwise fun one two => one.place < two.place := by
  refine (ofBlocks_placed 0 (go_sorted code.units code.units.size 0) (fun _ _ => Nat.zero_le _) ?_ ?_).1
  · unfold DecodedBody.last
    split
    · exact .nil
    · exact List.pairwise_singleton _ _
  · intro item member
    refine ⟨?_,Nat.zero_le _⟩
    intro block present
    have inside := (go_blocks present).2.1
    unfold DecodedBody.last at member
    split at member
    · cases member
    · obtain rfl := List.mem_singleton.mp member
      change 2 * block.address + 1 < 2 * t.stop
      rw [laid.stop]
      omega

end Restack
