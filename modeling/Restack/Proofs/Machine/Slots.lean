import Mathlib
import Restack.Frame.Slots
import Restack.Proofs.Machine.Register
import Restack.Proofs.Machine.Stack

namespace Restack

open RegisterMachine (Registers)
open StackMachine (storeAt)

-- Registers and local variables side by side: what can be read from a register is in
-- its slot. The other way round nothing is said: a slot may hold what its register lost.

variable {slots : Slots} {registers : Registers} {locals : Nat → Option Number} {r q n m : Nat} {value found : Number}
  {kind : Kind}

structure Mirrors (slots : Slots) (registers : Registers) (locals : Nat → Option Number) : Prop where
  count : registers.count = slots.registers
  reads : ∀ r n kind value, slots.slot r = .ok n → registers.read? r kind = some value → locals n = some value

namespace Slots

theorem slot_cases (placed : slots.slot r = .ok n) :
    r < slots.registers ∧ (slots.firstIn ≤ r ∧ n = r - slots.firstIn ∨ r < slots.firstIn ∧ n = r + slots.ins) := by
  unfold slot at placed
  split at placed
  · simp [refuse] at placed
  · split at placed
    · cases placed
      omega
    · cases placed
      omega

theorem slot_incoming (inside : slots.firstIn + n < slots.registers) : slots.slot (slots.firstIn + n) = .ok n := by
  unfold slot
  rw [if_neg (by omega),if_pos (by omega)]
  congr 1
  omega

theorem slot_injective (enough : slots.ins ≤ slots.registers) (one : slots.slot r = .ok n) (two : slots.slot q = .ok n) :
    r = q := by
  have first := slot_cases one
  have second := slot_cases two
  unfold firstIn at first second
  omega

-- Only neighbours have neighbouring slots, except that the last register is followed by
-- the slot of the first.
theorem slot_neighbour (enough : slots.ins ≤ slots.registers) (one : slots.slot r = .ok n)
    (two : slots.slot q = .ok (n + 1)) (inside : r + 1 < slots.registers) : q = r + 1 := by
  have first := slot_cases one
  have second := slot_cases two
  unfold firstIn at first second
  omega

end Slots

namespace RegisterMachine.Registers

theorem read_kind (got : registers.read? r kind = some value) : value.kind = kind := by
  unfold read? at got
  split at got
  · obtain ⟨bits,-,rfl⟩ := Option.map_eq_some_iff.mp got
    rfl
  · obtain ⟨bits,-,rfl⟩ := Option.map_eq_some_iff.mp got
    rfl
  · cases got

theorem read_bound (got : registers.read? r kind = some value) : r + value.words ≤ registers.count := by
  unfold read? at got
  split at got
  · obtain ⟨bits,read,rfl⟩ := Option.map_eq_some_iff.mp got
    unfold int? at read
    split at read
    · exact ‹r < registers.count›
    · cases read
  · obtain ⟨bits,read,rfl⟩ := Option.map_eq_some_iff.mp got
    unfold long? at read
    split at read
    · exact ‹r + 1 < registers.count›
    · cases read
  · cases got

theorem halves (a : BitVec 64) : a.extractLsb' 32 32 ++ a.extractLsb' 0 32 = a :=
  (BitVec.extractLsb'_append_extractLsb'_eq_extractLsb' (show 32 = 0 + 32 from rfl)).trans BitVec.extractLsb'_eq_self

theorem int_word {bits : BitVec 32} :
    registers.read? r .int = some (.int bits) ↔ r < registers.count ∧ registers.word r = .int bits := by
  simp only [read?,int?,Option.map_eq_some_iff,Number.int.injEq,exists_eq_right]
  constructor
  · intro got
    split at got
    · rename_i inside
      refine ⟨inside,?_⟩
      split at got
      · cases got
        assumption
      · cases got
    · cases got
  · rintro ⟨inside,holds⟩
    simp [inside,holds]

theorem long_words {bits : BitVec 64} :
    registers.read? r .long = some (.long bits) ↔ r + 1 < registers.count ∧
      ∃ a b, registers.word r = .low a ∧ registers.word (r + 1) = .high b ∧ b ++ a = bits := by
  simp only [read?,long?,Option.map_eq_some_iff,Number.long.injEq,exists_eq_right]
  constructor
  · intro got
    split at got
    · rename_i inside
      refine ⟨inside,?_⟩
      split at got
      · rename_i a b low high
        exact ⟨a,b,low,high,Option.some.inj got⟩
      · cases got
    · cases got
  · rintro ⟨inside,a,b,low,high,rfl⟩
    simp [inside,low,high]

theorem write_count (registers : Registers) (r : Nat) (value : Number) : (registers.write r value).count = registers.count := by
  cases value <;> rfl

theorem word_int (registers : Registers) (r q : Nat) (a : BitVec 32) :
    (registers.write r (.int a)).word q = if q = r then .int a else registers.word q := by
  simp [write,put,Function.update_apply]

theorem word_long (registers : Registers) (r q : Nat) (a : BitVec 64) :
    (registers.write r (.long a)).word q =
      if q = r + 1 then .high (a.extractLsb' 32 32) else if q = r then .low (a.extractLsb' 0 32) else registers.word q := by
  simp [write,put,Function.update_apply]

theorem read_write (got : (registers.write r value).read? q kind = some found) :
    q = r ∧ found = value ∨
      q ≠ r ∧ registers.read? q kind = some found ∧ (value.kind = .long → q ≠ r + 1) ∧ (found.kind = .long → q + 1 ≠ r) := by
  have same := read_kind got
  cases found with
  | int bits =>
    cases same
    obtain ⟨inside,holds⟩ := int_word.mp got
    rw [write_count] at inside
    cases value with
    | int a =>
      rw [word_int] at holds
      split at holds
      · cases holds
        exact .inl ⟨‹q = r›,rfl⟩
      · rename_i apart
        exact .inr ⟨apart,int_word.mpr ⟨inside,holds⟩,nofun,nofun⟩
    | long a =>
      rw [word_long] at holds
      split at holds
      · cases holds
      · rename_i high
        split at holds
        · cases holds
        · rename_i low
          exact .inr ⟨low,int_word.mpr ⟨inside,holds⟩,fun _ => high,nofun⟩
  | long bits =>
    cases same
    obtain ⟨inside,x,y,low,high,rfl⟩ := long_words.mp got
    rw [write_count] at inside
    cases value with
    | int a =>
      rw [word_int] at low high
      split at low
      · cases low
      · rename_i apart
        split at high
        · cases high
        · rename_i above
          exact .inr ⟨apart,long_words.mpr ⟨inside,x,y,low,high,rfl⟩,nofun,fun _ => above⟩
    | long a =>
      rw [word_long] at low high
      split at low
      · cases low
      · rename_i notHigh
        split at low
        · rename_i here
          subst here
          cases low
          rw [if_pos rfl] at high
          cases high
          exact .inl ⟨rfl,congrArg Number.long (halves a)⟩
        · rename_i notLow
          rw [if_neg (by omega)] at high
          split at high
          · cases high
          · rename_i above
            exact .inr ⟨notLow,long_words.mpr ⟨inside,x,y,low,high,rfl⟩,fun _ => notHigh,fun _ => above⟩

end RegisterMachine.Registers

namespace Mirrors

theorem write (enough : slots.ins ≤ slots.registers) (mirrors : Mirrors slots registers locals)
    (placed : slots.slot r = .ok n) (inside : r + value.words ≤ slots.registers) :
    Mirrors slots (registers.write r value) (storeAt locals n value) := by
  refine ⟨(Registers.write_count registers r value).trans mirrors.count,?_⟩
  intro q m kind found here got
  unfold storeAt
  rcases Registers.read_write got with ⟨rfl,rfl⟩ | ⟨apart,before,above,below⟩
  · rw [placed] at here
    cases here
    simp
  · have kept := mirrors.reads q m kind found here before
    have bound := Registers.read_bound before
    rw [mirrors.count] at bound
    have other : m ≠ n := by
      rintro rfl
      exact apart (Slots.slot_injective enough here placed)
    rw [if_neg other,if_neg]
    · cases found with
      | int bits => simp [kept]
      | long bits =>
        have next : m + 1 ≠ n := by
          rintro rfl
          exact below rfl (Slots.slot_neighbour enough here placed bound).symm
        simp [kept,next]
    · rintro ⟨rfl,wide⟩
      have reach : r + 1 < slots.registers := by
        cases value with
        | int a => cases wide
        | long a => exact inside
      exact above wide (Slots.slot_neighbour enough placed here reach)

theorem empty (slots : Slots) : Mirrors slots (.empty slots.registers) fun _ => none := by
  refine ⟨rfl,?_⟩
  intro r n kind value placed got
  have same := Registers.read_kind got
  cases value with
  | int bits =>
    cases same
    cases (Registers.int_word.mp got).2
  | long bits =>
    cases same
    obtain ⟨-,a,b,low,-⟩ := Registers.long_words.mp got
    cases low

def totalWords (values : List Number) : Nat := (values.map Number.words).sum

theorem enter {values : List Number} (enough : slots.ins ≤ slots.registers) (mirrors : Mirrors slots registers locals)
    (inside : slots.firstIn + n + totalWords values ≤ slots.registers) :
    Mirrors slots (RegisterMachine.enter (slots.firstIn + n) values registers) (StackMachine.enter n values locals) := by
  induction values generalizing n registers locals with
  | nil => exact mirrors
  | cons value values ih =>
    have here : 0 < value.words := by cases value <;> simp [Number.words]
    simp only [totalWords,List.map_cons,List.sum_cons] at inside
    have placed : slots.slot (slots.firstIn + n) = .ok n := Slots.slot_incoming (by omega)
    have bound : slots.firstIn + n + value.words ≤ slots.registers := by omega
    unfold RegisterMachine.enter StackMachine.enter
    rw [Nat.add_assoc]
    exact ih (mirrors.write enough placed bound) (by simp only [totalWords]; omega)

end Mirrors

end Restack
