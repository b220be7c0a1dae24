import Mathlib
import Restack.Proofs.Outcome
import Restack.Register.Operands

namespace Restack

-- Operand layouts bit by bit. Each layout has room for certain operands, and a place for each of
-- them in its units; what is left over may hold any bits.

variable {code : CodeUnits} {pc n : Nat} {format : Format} {value : BitVec 8} {o : Operands} {spare : List Nat}

inductive RegisterRoom where
  -- A field of its own for each register, so many bits wide.
  | each (widths : List Nat)
  -- Up to five registers of four bits.
  | listed
  -- A first register and how many follow on it, counted in sixteen bits.
  | ranged

def RegisterRoom.Holds : RegisterRoom → List Nat → Prop
  | .each widths, registers => List.Forall₂ (fun r width => r < 2 ^ width) registers widths
  | .listed, registers => registers.length ≤ 5 ∧ ∀ r ∈ registers, r < 16
  | .ranged, registers => registers.length < 256 ∧
      ∃ first < 65536, registers = (List.range registers.length).map fun i => (first + i) % 65536

-- Bits of each operand. A literal can have zeros below its bits.
structure Room where
  registers : RegisterRoom := .each []
  literal : Nat := 0
  zeros : Nat := 0
  index : Nat := 0
  proto : Nat := 0

def Format.room : Format → Room
  | .f10x => {}
  | .f10t => { literal := 8 }
  | .f11n => { registers := .each [4], literal := 4 }
  | .f11x => { registers := .each [8] }
  | .f12x => { registers := .each [4,4] }
  | .f20t => { literal := 16 }
  | .f21c => { registers := .each [8], index := 16 }
  | .f21ih => { registers := .each [8], literal := 16, zeros := 16 }
  | .f21lh => { registers := .each [8], literal := 16, zeros := 48 }
  | .f21s | .f21t => { registers := .each [8], literal := 16 }
  | .f22b => { registers := .each [8,8], literal := 8 }
  | .f22c => { registers := .each [4,4], index := 16 }
  | .f22s | .f22t => { registers := .each [4,4], literal := 16 }
  | .f22x => { registers := .each [8,16] }
  | .f23x => { registers := .each [8,8,8] }
  | .f30t => { literal := 32 }
  | .f31c => { registers := .each [8], index := 32 }
  | .f31i | .f31t => { registers := .each [8], literal := 32 }
  | .f32x => { registers := .each [16,16] }
  | .f35c => { registers := .listed, index := 16 }
  | .f3rc => { registers := .ranged, index := 16 }
  | .f45cc => { registers := .listed, index := 16, proto := 16 }
  | .f4rcc => { registers := .ranged, index := 16, proto := 16 }
  | .f51l => { registers := .each [8], literal := 64 }

structure Room.Holds (room : Room) (o : Operands) : Prop where
  registers : room.registers.Holds o.registers
  literal : ∃ top : Int, -2 ^ room.literal ≤ 2 * top ∧ 2 * top < 2 ^ room.literal ∧ o.literal = top * 2 ^ room.zeros
  index : o.index < 2 ^ room.index
  proto : o.proto < 2 ^ room.proto

namespace Operands

-- The parts that operands are written in. Fields beyond the last register hold spare bits.

def field (o : Operands) (spare : List Nat) (width i : Nat) : BitVec width :=
  BitVec.ofNat width ((o.registers ++ spare).getD i 0)

def count (o : Operands) (width : Nat) : BitVec width := BitVec.ofNat width o.registers.length

def literalUnit (o : Operands) (i : Nat) : BitVec 16 := (BitVec.ofInt 64 o.literal).extractLsb' (16 * i) 16

def indexUnit (o : Operands) (i : Nat) : BitVec 16 := (BitVec.ofNat 32 o.index).extractLsb' (16 * i) 16

end Operands

def Format.written (format : Format) (value : BitVec 8) (o : Operands) (spare : List Nat) : List (BitVec 16) :=
  let field := o.field spare
  match format with
  | .f10x | .f11x => [field 8 0 ++ value]
  | .f10t => [BitVec.ofInt 8 o.literal ++ value]
  | .f11n => [BitVec.ofInt 4 o.literal ++ field 4 0 ++ value]
  | .f12x => [field 4 1 ++ field 4 0 ++ value]
  | .f20t | .f21s | .f21t => [field 8 0 ++ value,o.literalUnit 0]
  | .f21c => [field 8 0 ++ value,o.indexUnit 0]
  | .f21ih => [field 8 0 ++ value,o.literalUnit 1]
  | .f21lh => [field 8 0 ++ value,o.literalUnit 3]
  | .f22b => [field 8 0 ++ value,BitVec.ofInt 8 o.literal ++ field 8 1]
  | .f22c => [field 4 1 ++ field 4 0 ++ value,o.indexUnit 0]
  | .f22s | .f22t => [field 4 1 ++ field 4 0 ++ value,o.literalUnit 0]
  | .f22x => [field 8 0 ++ value,field 16 1]
  | .f23x => [field 8 0 ++ value,field 8 2 ++ field 8 1]
  | .f30t | .f31i | .f31t => [field 8 0 ++ value,o.literalUnit 0,o.literalUnit 1]
  | .f31c => [field 8 0 ++ value,o.indexUnit 0,o.indexUnit 1]
  | .f32x => [field 8 2 ++ value,field 16 0,field 16 1]
  | .f35c => [o.count 4 ++ field 4 4 ++ value,o.indexUnit 0,field 4 3 ++ field 4 2 ++ field 4 1 ++ field 4 0]
  | .f3rc => [o.count 8 ++ value,o.indexUnit 0,field 16 0]
  | .f45cc =>
    [o.count 4 ++ field 4 4 ++ value,o.indexUnit 0,field 4 3 ++ field 4 2 ++ field 4 1 ++ field 4 0,BitVec.ofNat 16 o.proto]
  | .f4rcc => [o.count 8 ++ value,o.indexUnit 0,field 16 0,BitVec.ofNat 16 o.proto]
  | .f51l => [field 8 0 ++ value,o.literalUnit 0,o.literalUnit 1,o.literalUnit 2,o.literalUnit 3]

theorem written_length (format : Format) (value : BitVec 8) (o : Operands) (spare : List Nat) :
    (format.written value o spare).length = format.units := by cases format <;> rfl

def CodeUnits.Stand (code : CodeUnits) : Nat → List (BitVec 16) → Prop
  | _, [] => True
  | pc, unit :: units => code.unit pc = unit.toNat ∧ code.Stand (pc + 1) units

-- Reading the parts back.

theorem append_toNat {w v : Nat} (x : BitVec w) (y : BitVec v) : (x ++ y).toNat = x.toNat * 2 ^ v + y.toNat := by
  rw [BitVec.toNat_append,← Nat.shiftLeft_add_eq_or_of_lt y.isLt,Nat.shiftLeft_eq]

theorem twosComplement_eq {bits : Nat} {x : Int} (positive : 0 < bits) (low : -2 ^ bits ≤ 2 * x) (high : 2 * x < 2 ^ bits)
    (same : ((n : Int) - x) % 2 ^ bits = 0) : twosComplement bits n = x := by
  obtain ⟨k,rfl⟩ := Nat.exists_eq_add_one.mpr positive
  have double : (2 : Int) ^ (k + 1) = 2 * 2 ^ k := by ring
  have rest : (n : Int) % 2 ^ (k + 1) = x % 2 ^ (k + 1) := Int.emod_eq_emod_iff_emod_sub_eq_zero.mpr same
  have whole : ((n % 2 ^ (k + 1) : Nat) : Int) = x % 2 ^ (k + 1) := by
    push_cast
    exact rest
  rw [double] at low high whole
  have half : (2 : Int) ^ k = ((2 ^ k : Nat) : Int) := by
    push_cast
    rfl
  simp only [twosComplement,Nat.pow_eq,Nat.add_sub_cancel]
  rcases Int.lt_or_le x 0 with negative | natural
  · have moved : x % (2 * 2 ^ k) = x + 2 * 2 ^ k := by
      rw [← Int.add_emod_right,Int.emod_eq_of_lt (by omega) (by omega)]
    rw [moved] at whole
    rw [if_neg (by omega),whole]
    push_cast
    rw [double]
    ring
  · rw [Int.emod_eq_of_lt natural (by omega)] at whole
    rw [if_pos (by omega),whole]

namespace Operands

variable {a b c d : BitVec 4} {x y : BitVec 8}

@[simp] theorem highByte_append : highByte (x ++ y).toNat = x.toNat := by
  rw [append_toNat,highByte]
  omega

@[simp] theorem lowByte_append : lowByte (x ++ y).toNat = y.toNat := by
  rw [append_toNat,lowByte]
  omega

@[simp] theorem lowByte_append_nibbles : lowByte (a ++ b ++ y).toNat = y.toNat := by
  rw [append_toNat,lowByte]
  omega

@[simp] theorem nibble_two : nibble 2 (a ++ b ++ y).toNat = b.toNat := by
  rw [append_toNat,append_toNat,nibble,Nat.pow_eq]
  omega

@[simp] theorem nibble_three : nibble 3 (a ++ b ++ y).toNat = a.toNat := by
  rw [append_toNat,append_toNat,nibble,Nat.pow_eq]
  omega

theorem listed_nibbles {first : BitVec 4} {e : BitVec 4} : listed (first ++ e ++ y).toNat (d ++ c ++ b ++ a).toNat =
    [a.toNat,b.toNat,c.toNat,d.toNat,e.toNat] := by
  simp only [listed,append_toNat,nibble,Nat.pow_eq,List.cons.injEq,and_true]
  omega

theorem field_toNat (o : Operands) (spare : List Nat) (width i : Nat) :
    (o.field spare width i).toNat = (o.registers ++ spare).getD i 0 % 2 ^ width := BitVec.toNat_ofNat ..

theorem literalUnit_toNat (o : Operands) (i : Nat) :
    (o.literalUnit i).toNat = (o.literal % 2 ^ 64).toNat / 2 ^ (16 * i) % 2 ^ 16 := by
  rw [literalUnit,BitVec.extractLsb'_toNat,BitVec.toNat_ofInt,Nat.shiftRight_eq_div_pow]
  rfl

theorem indexUnit_toNat (o : Operands) (i : Nat) : (o.indexUnit i).toNat = o.index % 2 ^ 32 / 2 ^ (16 * i) % 2 ^ 16 := by
  rw [indexUnit,BitVec.extractLsb'_toNat,BitVec.toNat_ofNat,Nat.shiftRight_eq_div_pow]

theorem field_register {i width : Nat} (inside : i < o.registers.length) (fits : o.registers[i] < 2 ^ width) :
    (o.field spare width i).toNat = o.registers[i] := by
  have known : (o.registers ++ spare)[i]? = some o.registers[i] := by
    rw [List.getElem?_append_left inside,List.getElem?_eq_getElem inside]
  rw [field_toNat,List.getD_eq_getElem?_getD,known,Option.getD_some,Nat.mod_eq_of_lt fits]

theorem each_fields (spare : List Nat) {widths : List Nat} (holds : (RegisterRoom.each widths).Holds o.registers) :
    (widths.zipIdx.map fun (width,i) => (o.field spare width i).toNat) = o.registers := by
  obtain ⟨length,fits⟩ := List.forall₂_iff_get.mp holds
  refine List.ext_getElem (by simp [length]) fun i left right => ?_
  simp only [List.getElem_map,field_toNat,List.getElem_zipIdx,Nat.zero_add]
  rw [← field_toNat]
  exact field_register right (fits i right (by omega))

theorem listed_fields (spare : List Nat) (holds : RegisterRoom.listed.Holds o.registers) :
    ((List.range 5).map fun i => (o.field spare 4 i).toNat).take (o.count 4).toNat = o.registers := by
  obtain ⟨few,fits⟩ := holds
  have count : (o.count 4).toNat = o.registers.length := by
    rw [Operands.count,BitVec.toNat_ofNat]
    omega
  refine List.ext_getElem (by simp [count,few]) fun i left right => ?_
  simp only [List.getElem_take,List.getElem_map,List.getElem_range]
  exact field_register right (fits _ (List.getElem_mem right))

theorem ranged_field (spare : List Nat) (holds : RegisterRoom.ranged.Holds o.registers) :
    ranged (o.field spare 16 0).toNat (o.count 8).toNat = o.registers := by
  obtain ⟨few,first,fits,same⟩ := holds
  have count : (o.count 8).toNat = o.registers.length := by
    rw [Operands.count,BitVec.toNat_ofNat]
    omega
  rw [count,ranged]
  conv_rhs => rw [same]
  refine List.map_congr_left fun i inside => ?_
  have some : 0 < o.registers.length := Nat.zero_lt_of_lt (List.mem_range.mp inside)
  have start : o.registers[0] = first := by
    have found : o.registers[0]? = (List.range o.registers.length |>.map fun i => (first + i) % 65536)[0]? := by rw [← same]
    simp [some] at found
    omega
  rw [field_register some (by omega),start]

theorem registers_written (holds : format.room.Holds o) (stand : code.Stand pc (format.written value o spare)) :
    (ofUnits format code pc).registers = o.registers := by
  have fields := holds.registers
  cases format
  all_goals simp only [Format.written,CodeUnits.Stand,and_true,Nat.add_assoc,Nat.reduceAdd] at stand
  case f35c | f45cc =>
    rw [← listed_fields spare fields]
    simp [ofUnits,stand,listed_nibbles,List.range_succ]
  case f3rc | f4rcc =>
    rw [← ranged_field spare fields]
    simp [ofUnits,stand]
  all_goals
    rw [← each_fields spare fields]
    simp [ofUnits,stand]

theorem literal_written (holds : format.room.Holds o) (stand : code.Stand pc (format.written value o spare)) :
    (ofUnits format code pc).literal = o.literal := by
  obtain ⟨top,low,high,literal⟩ := holds.literal
  cases format
  all_goals
    simp only [Format.written,CodeUnits.Stand,and_true,Nat.add_assoc,Nat.reduceAdd] at stand
    simp only [Format.room,Int.reducePow,Int.reduceNeg,Int.mul_one] at low high literal
  case f10t | f11n | f22b =>
    simp only [ofUnits,stand,highByte_append,nibble_three,BitVec.toNat_ofInt]
    exact twosComplement_eq (by decide) (by omega) (by omega) (by omega)
  case f20t | f21s | f21t | f22s | f22t | f21ih | f21lh | f30t | f31i | f31t | f51l =>
    simp only [ofUnits,CodeUnits.pair,Nat.add_assoc,Nat.reduceAdd,stand,literalUnit_toNat,Nat.reduceMul,Nat.reducePow,Int.reducePow]
    exact twosComplement_eq (by decide) (by omega) (by omega) (by omega)
  all_goals
    simp only [ofUnits]
    omega

theorem index_written (holds : format.room.Holds o) (stand : code.Stand pc (format.written value o spare)) :
    (ofUnits format code pc).index = o.index := by
  have fits := holds.index
  cases format
  all_goals
    simp only [Format.written,CodeUnits.Stand,and_true,Nat.add_assoc,Nat.reduceAdd] at stand
    simp only [Format.room] at fits
    simp only [ofUnits,CodeUnits.pair,Nat.add_assoc,Nat.reduceAdd,stand,indexUnit_toNat]
    omega

theorem proto_written (holds : format.room.Holds o) (stand : code.Stand pc (format.written value o spare)) :
    (ofUnits format code pc).proto = o.proto := by
  have fits := holds.proto
  cases format
  all_goals
    simp only [Format.written,CodeUnits.Stand,and_true,Nat.add_assoc,Nat.reduceAdd] at stand
    simp only [Format.room] at fits
    simp only [ofUnits,stand,BitVec.toNat_ofNat]
    omega

theorem ofUnits_written (holds : format.room.Holds o) (stand : code.Stand pc (format.written value o spare)) :
    ofUnits format code pc = o := by
  have registers := registers_written holds stand
  have literal := literal_written holds stand
  have index := index_written holds stand
  have proto := proto_written holds stand
  cases o
  cases read : ofUnits format code pc
  simp only [read] at registers literal index proto
  rw [registers,literal,index,proto]

theorem lowByte_written (format : Format) (stand : code.Stand pc (format.written value o spare)) :
    lowByte (code.unit pc) = value.toNat := by
  cases format <;> simp only [Format.written,CodeUnits.Stand] at stand <;> simp [stand]

theorem isListed_iff : isListed format = true ↔ format = .f35c ∨ format = .f45cc := by cases format <;> simp [isListed]

theorem listed_few (listed : isListed format = true) (holds : format.room.Holds o)
    (stand : code.Stand pc (format.written value o spare)) : nibble 3 (code.unit pc) ≤ 5 := by
  have fields := holds.registers
  rcases isListed_iff.mp listed with rfl | rfl
  all_goals
    simp only [Format.written,CodeUnits.Stand] at stand
    rw [stand.1,nibble_three,count,BitVec.toNat_ofNat]
    exact (Nat.mod_le _ _).trans fields.1

end Operands

namespace Encoded

theorem stand_between (before after : List UInt16) (units : List (BitVec 16)) :
    CodeUnits.Stand (before ++ units.map UInt16.ofBitVec ++ after).toArray before.length units := by
  induction units generalizing before with
  | nil => trivial
  | cons unit units ih =>
    refine ⟨?_,?_⟩
    · simp [CodeUnits.unit]
    · simpa using ih (before ++ [UInt16.ofBitVec unit])

theorem decode_named {opcode : Opcode} (named : Opcode.ofByte? (Operands.lowByte (code.unit pc)) = some opcode) :
    decode code pc =
      if code.size < pc + opcode.format.units then
        refuse (.truncated opcode.name pc opcode.format.units (code.size - pc))
      else if Operands.isListed opcode.format && 5 < Operands.nibble 3 (code.unit pc) then
        refuse (.tooManyRegisters opcode.name pc (Operands.nibble 3 (code.unit pc)))
      else .ok ⟨opcode,Operands.ofUnits opcode.format code pc⟩ := by
  simp only [decode,named,CodeUnits.require]
  split <;> rfl

theorem decode_written {opcode : Opcode} (named : Opcode.ofByte? value.toNat = some opcode) (holds : opcode.format.room.Holds o)
    (stand : code.Stand pc (opcode.format.written value o spare)) (inside : pc + opcode.format.units ≤ code.size) :
    decode code pc = .ok ⟨opcode,o⟩ := by
  have few : (Operands.isListed opcode.format && decide (5 < Operands.nibble 3 (code.unit pc))) = false := by
    cases listed : Operands.isListed opcode.format with
    | false => rfl
    | true => simpa using Operands.listed_few listed holds stand
  rw [← Operands.lowByte_written opcode.format stand] at named
  rw [decode_named named,if_neg (by omega),few,if_neg Bool.false_ne_true,Operands.ofUnits_written holds stand]

def Unassigned (value : Nat) : Prop :=
  0x3e ≤ value ∧ value ≤ 0x43 ∨ value = 0x73 ∨ value = 0x79 ∨ value = 0x7a ∨ 0xe3 ≤ value ∧ value ≤ 0xf9

theorem runs_spans : Opcode.runs.map (fun run => (run.1,run.2.length)) =
    [(0x00,18),(0x12,11),(0x1d,10),(0x27,6),(0x2d,5),(0x32,6),(0x38,6),(0x44,7),(0x4b,7),(0x52,7),(0x59,7),(0x60,7),(0x67,7),
      (0x6e,5),(0x74,5),(0x7b,21),(0x90,32),(0xb0,32),(0xd0,8),(0xd8,11),(0xfa,6)] := by decide

theorem ofByte_none {value : Nat} (small : value < 256) : Opcode.ofByte? value = none ↔ Unassigned value := by
  have spans : Opcode.ofByte? value = none ↔
      ∀ span ∈ Opcode.runs.map (fun run => (run.1,run.2.length)), value < span.1 ∨ span.1 + span.2 ≤ value := by
    simp only [Opcode.ofByte?,List.findSome?_eq_none_iff,List.forall_mem_map]
    refine forall₂_congr fun run _ => ?_
    split <;> simp <;> omega
  rw [spans,runs_spans]
  simp only [List.forall_mem_cons,List.not_mem_nil,false_implies,implies_true,and_true,Unassigned]
  omega

theorem decode_error_iff (code : CodeUnits) (pc : Nat) : (∃ fault, decode code pc = .error fault) ↔
    Unassigned (code.unit pc % 256) ∨ ∃ opcode, Opcode.ofByte? (code.unit pc % 256) = some opcode ∧
      (code.size < pc + opcode.format.units ∨ (opcode.format = .f35c ∨ opcode.format = .f45cc) ∧ 5 < code.unit pc / 4096) := by
  have low : code.unit pc % 256 < 256 := Nat.mod_lt _ (by decide)
  have count : Operands.nibble 3 (code.unit pc) = code.unit pc / 4096 := by
    have word : code.unit pc < 65536 := UInt16.toNat_lt _
    rw [Operands.nibble,Nat.pow_eq]
    omega
  rw [← ofByte_none low]
  cases named : Opcode.ofByte? (code.unit pc % 256) with
  | none =>
    have refused : decode code pc = refuse (.unknownOpcode (Operands.lowByte (code.unit pc)) pc) := by
      simp only [decode,Operands.lowByte,named]
    simp [refused,refuse]
  | some opcode =>
    simp only [decode_named named,count,← Operands.isListed_iff,reduceCtorEq,false_or,Option.some.injEq,exists_eq_left']
    by_cases short : code.size < pc + opcode.format.units
    · simp [short,refuse]
    · by_cases many : Operands.isListed opcode.format = true ∧ 5 < code.unit pc / 4096
      · simp [short,many,refuse]
      · simp only [Bool.and_eq_true,decide_eq_true_eq,if_neg short,if_neg many]
        simp [short,many]

end Encoded

-- An instruction is read as it was written, wherever it stands and whatever the bits are that it has
-- no use for. Nothing is refused but what cannot have been written so.
theorem instructions_decode_exactly :
    (∀ (value : BitVec 8) (opcode : Opcode) (o : Operands), Opcode.ofByte? value.toNat = some opcode → opcode.format.room.Holds o →
      ∀ (spare : List Nat) (before after : List UInt16),
        Encoded.decode (before ++ (opcode.format.written value o spare).map UInt16.ofBitVec ++ after).toArray before.length =
          .ok ⟨opcode,o⟩) ∧
    (∀ (code : CodeUnits) (pc : Nat), (∃ fault, Encoded.decode code pc = .error fault) ↔
      Encoded.Unassigned (code.unit pc % 256) ∨ ∃ opcode, Opcode.ofByte? (code.unit pc % 256) = some opcode ∧
        (code.size < pc + opcode.format.units ∨
          (opcode.format = .f35c ∨ opcode.format = .f45cc) ∧ 5 < code.unit pc / 4096)) := by
  refine ⟨?_,Encoded.decode_error_iff⟩
  intro value opcode o named holds spare before after
  refine Encoded.decode_written named holds (Encoded.stand_between before after _) ?_
  simp only [List.size_toArray,List.length_append,List.length_map,written_length]
  omega

-- Three registers of a list, with bits in the places of the fourth and the fifth, and the lowest
-- number that a wide literal has the top of.
theorem instructions_decode_exactly_samples : ∃ call top : Opcode,
    Opcode.ofByte? 0x6e = some call ∧ Opcode.ofByte? 0x19 = some top ∧
    call.format.written 0x6e ⟨[1,2,3],0,0x1234,0⟩ [9,15] = [0x3f6e,0x1234,0x9321] ∧
    top.format.written 0x19 ⟨[5],-0x8000000000000000,0,0⟩ [] = [0x0519,0x8000] ∧
    Encoded.decode #[0,0x71,0x3f6e,0x1234,0x9321,0xffff] 2 = .ok ⟨call,⟨[1,2,3],0,0x1234,0⟩⟩ ∧
    Encoded.decode #[0x0519,0x8000] 0 = .ok ⟨top,⟨[5],-0x8000000000000000,0,0⟩⟩ := by
  refine ⟨_,_,rfl,rfl,by decide,by decide,?_,?_⟩
  · exact instructions_decode_exactly.1 0x6e _ ⟨[1,2,3],0,0x1234,0⟩ rfl
      ⟨⟨by decide,by decide⟩,⟨0,by decide,by decide,by decide⟩,by decide,by decide⟩ [9,15] [0,0x71] [0xffff]
  · exact instructions_decode_exactly.1 0x19 _ ⟨[5],-0x8000000000000000,0,0⟩ rfl
      ⟨.cons (by decide) .nil,⟨-0x8000,by decide,by decide,by decide⟩,by decide,by decide⟩ [] [] []

end Restack
