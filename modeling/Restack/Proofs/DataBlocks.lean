import Mathlib
import Restack.Proofs.Body.Survey

namespace Restack

-- Data inside code. The walk knows a data block by its first unit, where it comes to it. A
-- reference is read wherever it points. The two agree where the walk comes to the address.

variable {code : CodeItem} {units : CodeUnits} {t : LabelTable} {starts : List Nat} {entry : LabelEntry} {payload : Payload}
  {kind : PayloadKind} {a b length : Nat}

theorem length_pos (kind : PayloadKind) (units : CodeUnits) (a : Nat) : 0 < Payload.length kind units a := by
  cases kind <;> simp only [Payload.length] <;> omega

theorem block_some (done : Payload.block? units a = .ok (some (kind,length))) : length = Payload.length kind units a := by
  simp only [Payload.block?] at done
  split at done
  · cases done
  · simp only [bind_eq_ok,pure_eq_ok,Option.some.injEq,Prod.mk.injEq] at done
    obtain ⟨_,-,rfl,rfl⟩ := done
    rfl

theorem parse_block (done : Payload.parse units a b = .ok payload) :
    Payload.block? units a = .ok (some (payload.kind,Payload.length payload.kind units a)) ∧
      a + Payload.length payload.kind units a ≤ units.size := by
  have announced := parse_kind done
  simp only [Payload.parse,bind_eq_ok] at done
  obtain ⟨found,head,done⟩ := done
  split at done
  · simp at done
  · rename_i kind length
    obtain rfl := block_some head
    have same : kind = payload.kind := by
      simp only [Payload.block?,announced,bind_eq_ok,pure_eq_ok,Option.some.injEq,Prod.mk.injEq] at head
      obtain ⟨_,-,rfl,-⟩ := head
      rfl
    rw [bind_eq_ok] at done
    obtain ⟨_,enough,-⟩ := done
    rw [← same]
    refine ⟨head,?_⟩
    unfold CodeUnits.require at enough
    split at enough
    · simp at enough
    · omega

-- No instruction has a unit in a stretch of code: none starts there, and none is under way.
structure Untouched (units : CodeUnits) (starts : List Nat) (a length : Nat) : Prop where
  free : ∀ start ∈ starts, ¬(a ≤ start ∧ start < a + length)
  apart : ∀ pc e, .instruction pc e ∈ (Walk.ofCode units).blocks → ¬(pc < a ∧ a < pc + e.units)

theorem block_unique {one two : Block} (fills : (Walk.ofCode units).ending = .ok units.size)
    (first : one ∈ (Walk.ofCode units).blocks) (second : two ∈ (Walk.ofCode units).blocks) (left : one.Covers a)
    (right : two.Covers a) : one = two := by
  have inside : a < units.size := Nat.lt_of_lt_of_le left.2 ((go_tiles fills).bounds first).2
  obtain ⟨_,-,unique⟩ := (go_tiles fills).once (Nat.zero_le a) inside
  exact (unique one ⟨first,left⟩).trans (unique two ⟨second,right⟩).symm

theorem Untouched.iff_data (fills : (Walk.ofCode units).ending = .ok units.size) (positive : 0 < length)
    (inside : a + length ≤ units.size) :
    Untouched units (Walk.ofCode units).starts a length ↔
      ∀ b, a ≤ b → b < a + length → ∃ d n, .data d n ∈ (Walk.ofCode units).blocks ∧ d ≤ b ∧ b < d + n := by
  constructor
  · intro untouched b low high
    obtain ⟨block,⟨member,covers⟩,-⟩ := (go_tiles fills).once (Nat.zero_le b) (Nat.lt_of_lt_of_le high inside)
    cases block with
    | data d n => exact ⟨d,n,member,covers⟩
    | instruction pc e =>
      obtain ⟨before,after⟩ : pc ≤ b ∧ b < pc + e.units := covers
      by_cases starts : a ≤ pc
      · exact absurd ⟨starts,by omega⟩ (untouched.free pc (mem_starts.mpr ⟨e,member⟩))
      · exact absurd ⟨by omega,by omega⟩ (untouched.apart pc e member)
  · intro data
    have clash : ∀ {pc b : Nat} {e : Encoded}, .instruction pc e ∈ (Walk.ofCode units).blocks → pc ≤ b → b < pc + e.units →
        ¬(a ≤ b ∧ b < a + length) := by
      rintro pc b e member low high ⟨first,last⟩
      obtain ⟨d,n,other,covers⟩ := data b first last
      have same : Block.instruction pc e = .data d n := block_unique fills member other ⟨low,high⟩ covers
      cases same
    constructor
    · intro start present
      obtain ⟨e,member⟩ := mem_starts.mp present
      exact clash member (Nat.le_refl _) (Nat.lt_add_of_pos_right (units_pos e.opcode.format))
    · rintro pc e member ⟨low,high⟩
      exact clash member (Nat.le_of_lt low) high ⟨Nat.le_refl _,Nat.lt_add_of_pos_right positive⟩

theorem walk_skips {block : Block} (member : block ∈ (Walk.ofCode units).blocks) (here : block.address = a)
    (announced : Payload.block? units a = .ok (some (kind,length))) : block = .data a length := by
  have stepped := (go_blocks member).2.2
  rw [here] at stepped
  simp only [Walk.step,announced,bind_eq_ok,Except.ok.injEq,exists_eq_left',pure_eq_ok] at stepped
  exact stepped.symm

-- A data block that the table has for an address is within the code. No instruction has a part in
-- it exactly if all its units are of data that the walk skips; and it is one of the blocks that the
-- walk skips exactly if the walk comes to the address, so exactly if that is not in the middle of
-- an instruction or of another block.
theorem data_skipped_iff (scanned : LabelTable.scan code = .ok t) (found : t.entry? a = some entry)
    (carries : entry.payload = some payload) :
    ∃ length, length = Payload.length payload.kind code.units a ∧ a + length ≤ code.units.size ∧
      (Untouched code.units t.starts a length ↔
        ∀ b, a ≤ b → b < a + length → ∃ d n, .data d n ∈ (Walk.ofCode code.units).blocks ∧ d ≤ b ∧ b < d + n) ∧
      (.data a length ∈ (Walk.ofCode code.units).blocks ∧ Untouched code.units t.starts a length ↔
        ∃ block ∈ (Walk.ofCode code.units).blocks, block.address = a) ∧
      ((∃ block ∈ (Walk.ofCode code.units).blocks, block.address = a) ↔
        ¬∃ block ∈ (Walk.ofCode code.units).blocks, block.address < a ∧ a < block.address + block.units) := by
  have surveyed := LabelTable.scan_surveyed scanned
  have held : t.payload? a = some payload := by simp [LabelTable.payload?,found,carries]
  obtain ⟨user,-,parsed⟩ := surveyed.read a payload held
  obtain ⟨announced,inside⟩ := parse_block parsed
  have positive := length_pos payload.kind code.units a
  have dataOnly := Untouched.iff_data surveyed.fills positive inside
  rw [← surveyed.starts] at dataOnly
  refine ⟨_,rfl,inside,dataOnly,⟨?_,?_⟩,⟨?_,?_⟩⟩
  · rintro ⟨member,-⟩
    exact ⟨_,member,rfl⟩
  · rintro ⟨block,member,here⟩
    obtain rfl := walk_skips member here announced
    exact ⟨member,dataOnly.mpr fun b low high => ⟨_,_,member,low,high⟩⟩
  · rintro ⟨block,member,rfl⟩ ⟨other,present,low,high⟩
    have long := (step_block (go_blocks member).2.2).2.1
    obtain rfl := block_unique surveyed.fills member present ⟨Nat.le_refl _,Nat.lt_add_of_pos_right long⟩ ⟨Nat.le_of_lt low,high⟩
    exact absurd low (Nat.lt_irrefl _)
  · intro between
    obtain ⟨block,⟨member,low,high⟩,-⟩ := (go_tiles surveyed.fills).once (Nat.zero_le a) (by omega)
    rcases Nat.lt_or_eq_of_le low with less | same
    · exact absurd ⟨block,member,less,high⟩ between
    · exact ⟨block,member,same⟩

-- The operand of the constant at address 0 announces an array, whose other units are the three
-- instructions that follow. The instruction at address 5 refers to it.
def operandData : CodeItem where
  registers := 3
  ins := 0
  outs := 0
  debugInfo := 0
  units := #[0x0013,0x0300,0x0012,0x0000,0x0000,0x0226,0xfffc,0xffff,0x000e]
  tries := []
  handlers := []

theorem data_skipped_iff_operandData :
    ∃ t entry payload, LabelTable.scan operandData = .ok t ∧ t.entry? 1 = some entry ∧ entry.payload = some payload ∧
      ∃ length, length = Payload.length payload.kind operandData.units 1 ∧ 1 + length ≤ operandData.units.size ∧
        (Untouched operandData.units t.starts 1 length ↔
          ∀ b, 1 ≤ b → b < 1 + length → ∃ d n, .data d n ∈ (Walk.ofCode operandData.units).blocks ∧ d ≤ b ∧ b < d + n) ∧
        (.data 1 length ∈ (Walk.ofCode operandData.units).blocks ∧ Untouched operandData.units t.starts 1 length ↔
          ∃ block ∈ (Walk.ofCode operandData.units).blocks, block.address = 1) ∧
        ((∃ block ∈ (Walk.ofCode operandData.units).blocks, block.address = 1) ↔
          ¬∃ block ∈ (Walk.ofCode operandData.units).blocks, block.address < 1 ∧ 1 < block.address + block.units) := by
  obtain ⟨t,entry,payload,scanned,found,carries⟩ : ∃ t entry payload, LabelTable.scan operandData = .ok t ∧
      t.entry? 1 = some entry ∧ entry.payload = some payload := ⟨_,_,_,rfl,rfl,rfl⟩
  exact ⟨t,entry,payload,scanned,found,carries,data_skipped_iff scanned found carries⟩

-- The block takes the units 1 to 4. Instructions start at three of them, and the first is inside
-- the instruction at address 0.
theorem operandData_touched :
    ∃ t entry e, LabelTable.scan operandData = .ok t ∧ t.entry? 1 = some entry ∧
      entry.payload = some (.arrayData ⟨0x12,[]⟩) ∧ Payload.length .arrayData operandData.units 1 = 4 ∧
      t.starts = [0,2,3,4,5,8] ∧ .instruction 0 e ∈ (Walk.ofCode operandData.units).blocks ∧ 0 + e.units = 2 ∧
      ¬Untouched operandData.units t.starts 1 4 := by
  obtain ⟨t,entry,scanned,found,carries,starts⟩ : ∃ t entry, LabelTable.scan operandData = .ok t ∧ t.entry? 1 = some entry ∧
      entry.payload = some (.arrayData ⟨0x12,[]⟩) ∧ t.starts = [0,2,3,4,5,8] := ⟨_,_,rfl,rfl,rfl,rfl⟩
  obtain ⟨e,member,width⟩ : ∃ e, .instruction 0 e ∈ (Walk.ofCode operandData.units).blocks ∧ 0 + e.units = 2 :=
    ⟨_,List.mem_cons_self,rfl⟩
  refine ⟨t,entry,e,scanned,found,carries,rfl,starts,member,width,?_⟩
  intro untouched
  exact untouched.free 2 (by rw [starts]; decide) (by decide)

end Restack
