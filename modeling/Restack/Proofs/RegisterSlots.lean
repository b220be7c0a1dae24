import Mathlib
import Restack.Proofs.Lowering.Apart
import Restack.Proofs.Lowering.Run
import Restack.Proofs.Machine.Slots

namespace Restack

open Lowering

-- Registers and their slots. Every register has a slot of its own; a wide value also takes the slot
-- after it, which no other value is in.

variable {slots : Slots} {registers ins r q m n : Nat} {d : Draft} {f : Frame}

namespace Slots

theorem ofCounts_eq (counted : ofCounts registers ins = .ok slots) : slots = ⟨registers,ins⟩ ∧ ins ≤ registers := by
  unfold ofCounts at counted
  split at counted
  · simp at counted
  · rename_i enough
    cases counted
    exact ⟨rfl,Nat.le_of_not_lt enough⟩

theorem slot_ok (enough : slots.ins ≤ slots.registers) (inside : r < slots.registers) :
    ∃ n < slots.registers, slots.slot r = .ok n := by
  unfold slot
  rw [if_neg (Nat.not_le_of_lt inside)]
  split
  · exact ⟨_,by omega,rfl⟩
  · rename_i low
    unfold firstIn at low
    exact ⟨_,by omega,rfl⟩

theorem slot_permutes (slots : Slots) (enough : slots.ins ≤ slots.registers) :
    ∃ place : Equiv.Perm (Fin slots.registers), ∀ r : Fin slots.registers, slots.slot r = .ok (place r).val := by
  have placed : ∀ r : Fin slots.registers, ∃ n : Fin slots.registers, slots.slot r = .ok n := by
    intro r
    obtain ⟨n,small,done⟩ := slot_ok enough r.isLt
    exact ⟨⟨n,small⟩,done⟩
  choose place known using placed
  have injective : Function.Injective place := by
    intro r q same
    have equal : slots.slot q = .ok (place r) := by rw [known q,same]
    exact Fin.ext (slot_injective enough (known r) equal)
  exact ⟨Equiv.ofBijective place (Finite.injective_iff_bijective.mp injective),known⟩

end Slots

namespace Frame

-- A value is wide as it is stored, or as it is read now that its group has a type.
def isWideAt (f : Frame) (d : Draft) (r : Nat) : Bool := (f.state r).isWide || ((f.state r).settled d).isWide

def slotsAt (f : Frame) (d : Draft) (r n : Nat) : Finset Nat := Finset.Ico n (n + width (f.isWideAt d r))

structure Unaliased (slots : Slots) (d : Draft) (f : Frame) : Prop where
  size : f.size = slots.registers
  last : ∀ r, f.isWideAt d r = true → r + 1 < slots.registers
  upper : ∀ r, f.isWideAt d r = true → f.state (r + 1) = .unknown
  disjoint : ∀ r q n m, r ≠ q → f.state r ≠ .unknown → f.state q ≠ .unknown → slots.slot r = .ok n → slots.slot q = .ok m →
    Disjoint (f.slotsAt d r n) (f.slotsAt d q m)

theorem Apart.above_wide (gauged : d.Gauged) (apart : f.Apart d) (wide : f.isWideAt d r = true) :
    r + 1 < f.size ∧ f.state (r + 1) = .unknown := by
  apply apart.above
  rcases Bool.or_eq_true_iff.mp wide with stored | read
  · exact stored
  · exact RegisterState.settled_wide gauged (apart.fits r) read

theorem Apart.beside (gauged : d.Gauged) (apart : f.Apart d) (size : f.size = slots.registers)
    (enough : slots.ins ≤ slots.registers) (wide : f.isWideAt d r = true) (known : f.state q ≠ .unknown)
    (here : slots.slot r = .ok n) (there : slots.slot q = .ok m) : m ≠ n + 1 := by
  rintro rfl
  obtain ⟨inside,empty⟩ := apart.above_wide gauged wide
  rw [size] at inside
  rw [← Slots.slot_neighbour enough here there inside] at empty
  exact known empty

theorem Apart.unaliased (gauged : d.Gauged) (apart : f.Apart d) (size : f.size = slots.registers)
    (enough : slots.ins ≤ slots.registers) : f.Unaliased slots d := by
  refine ⟨size,?_,?_,?_⟩
  · intro r wide
    rw [← size]
    exact (apart.above_wide gauged wide).1
  · intro r wide
    exact (apart.above_wide gauged wide).2
  · intro r q n m differ left right here there
    have first : n ≠ m := by
      rintro rfl
      exact differ (Slots.slot_injective enough here there)
    have after : f.isWideAt d r = true → m ≠ n + 1 := fun wide => apart.beside gauged size enough wide right here there
    have before : f.isWideAt d q = true → n ≠ m + 1 := fun wide => apart.beside gauged size enough wide left there here
    rw [Finset.disjoint_left]
    intro k one two
    simp only [slotsAt,Finset.mem_Ico,width] at one two
    cases wideLeft : f.isWideAt d r <;> cases wideRight : f.isWideAt d q <;>
      simp only [wideLeft,wideRight,Bool.false_eq_true,if_false,if_true,forall_const] at one two after before <;> omega

end Frame

theorem registers_never_alias :
    (∀ registers ins slots, Slots.ofCounts registers ins = .ok slots →
      ∃ place : Equiv.Perm (Fin registers), (∀ r : Fin registers, slots.slot r = .ok (place r).val) ∧
        ∀ k < ins, slots.slot (registers - ins + k) = .ok k) ∧
    ∀ c shape item labels p start, prepare c shape item labels = .ok (p,start) →
      Slots.ofCounts item.registers.toNat item.ins.toNat = .ok p.slots ∧
      ∀ s, Reaches p start s →
        s.frame.Unaliased p.slots s.draft ∧ ∀ n f, s.joins.get? n = some f → f.Unaliased p.slots s.draft := by
  constructor
  · intro registers ins slots counted
    obtain ⟨rfl,enough⟩ := Slots.ofCounts_eq counted
    obtain ⟨place,known⟩ := Slots.slot_permutes ⟨registers,ins⟩ enough
    refine ⟨place,known,?_⟩
    intro k small
    apply Slots.slot_incoming
    simp only [Slots.firstIn]
    omega
  · intro c shape item labels p start prepared
    have counted : Slots.ofCounts item.registers.toNat item.ins.toNat = .ok p.slots := by
      simp only [prepare,bind_eq_ok,pure_eq_ok,Prod.mk.injEq] at prepared
      obtain ⟨slots,counted,f,-,handlers,-,rfl,-⟩ := prepared
      exact counted
    refine ⟨counted,?_⟩
    intro s reached
    obtain ⟨same,few⟩ := Slots.ofCounts_eq counted
    have enough : p.slots.ins ≤ p.slots.registers := by rwa [same]
    have apart := reached.keeps (apart_elementary p) (fun _ _ apart => apart.resolveDefaults) (prepare_apart prepared)
    refine ⟨apart.frame.unaliased apart.draft apart.size enough,?_⟩
    intro n f found
    obtain ⟨stored,size⟩ := apart.joins n f found
    exact stored.unaliased apart.draft size enough

-- A long in v1, the last register below the parameter in v2, takes the parameter's register but not
-- its slot: it is in the last two slots.
def straddlingLong : CodeItem where
  registers := 3
  ins := 1
  outs := 0
  debugInfo := 0
  units := #[0x0116,0x0001,0x000e]
  tries := []
  handlers := []

def straddlingShape : MethodShape := ⟨.object "a/T",true,⟨[.int],.void⟩⟩

theorem registers_never_alias_straddlingLong :
    ∃ labels p start s, LabelTable.scan straddlingLong = .ok labels ∧
      prepare bare straddlingShape straddlingLong labels = .ok (p,start) ∧
      (DecodedBody.ofCode bare straddlingLong.units labels).items.foldlM (place p) start = .ok s ∧
      (∃ place : Equiv.Perm (Fin 3), (∀ r : Fin 3, p.slots.slot r = .ok (place r).val) ∧ ∀ k < 1, p.slots.slot (3 - 1 + k) = .ok k) ∧
      s.frame.isWideAt s.draft 1 = true ∧ s.frame.slotsAt s.draft 1 2 = {2,3} ∧ p.slots.slot 1 = .ok 2 ∧
      s.frame.Unaliased p.slots s.draft ∧ ∀ n f, s.joins.get? n = some f → f.Unaliased p.slots s.draft := by
  obtain ⟨labels,p,start,s,scanned,prepared,ran,wide,taken,placed⟩ : ∃ labels p start s,
      LabelTable.scan straddlingLong = .ok labels ∧ prepare bare straddlingShape straddlingLong labels = .ok (p,start) ∧
        (DecodedBody.ofCode bare straddlingLong.units labels).items.foldlM (place p) start = .ok s ∧
        s.frame.isWideAt s.draft 1 = true ∧ s.frame.slotsAt s.draft 1 2 = {2,3} ∧ p.slots.slot 1 = .ok 2 :=
    ⟨_,_,_,_,rfl,rfl,rfl,rfl,by decide,rfl⟩
  obtain ⟨counted,apart⟩ := registers_never_alias.2 bare straddlingShape straddlingLong labels p start prepared
  exact ⟨labels,p,start,s,scanned,prepared,ran,registers_never_alias.1 _ _ _ counted,wide,taken,placed,
    apart s (run_reaches ran)⟩

end Restack
