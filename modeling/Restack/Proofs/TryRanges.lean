import Mathlib
import Restack.Body.Labels
import Restack.Proofs.Container.Bodies

namespace Restack

-- Ranges that were read end within the code, so their ends fit their words wherever they are computed again. Before that
-- the end of a range can leave its word, and the body is given up for this and not for the end of the code.

variable {code : CodeItem}

def Cause.Refused (cause : Cause) : Prop := ∃ why, cause = .inexpressible why

theorem refuse_refused (why : Inexpressible) : Faults Cause.Refused (refuse why : Except Fault α) := by
  intro fault failed
  cases failed
  exact ⟨why,rfl⟩

theorem guard_refused {p : Prop} [Decidable p] {why : Inexpressible} {f : PUnit → Except Fault α} (rest : Faults Cause.Refused (f ⟨⟩)) :
    Faults Cause.Refused (if p then refuse why >>= f else f ⟨⟩) := by
  split
  · exact (refuse_refused why).bind fun _ => rest
  · exact rest

theorem require_refused (units : CodeUnits) (address need : Nat) (what : String) : Faults Cause.Refused (units.require address need what) := by
  unfold CodeUnits.require
  split
  · exact refuse_refused _
  · exact faults_ok _ _

theorem decode_refused (units : CodeUnits) (pc : Nat) : Faults Cause.Refused (Encoded.decode units pc) := by
  unfold Encoded.decode
  dsimp only
  split
  · exact refuse_refused _
  · exact (require_refused _ _ _ _).bind fun _ => guard_refused (faults_ok _ _)

theorem block_refused (units : CodeUnits) (address : Nat) : Faults Cause.Refused (Payload.block? units address) := by
  unfold Payload.block?
  split
  · exact faults_ok _ _
  · exact (require_refused _ _ _ _).bind fun _ => faults_ok _ _

theorem target_refused (pc : Nat) (distance : Int) (size : Nat) : Faults Cause.Refused (Payload.target pc distance size) := by
  unfold Payload.target
  dsimp only
  split
  · exact refuse_refused _
  · exact faults_ok _ _

theorem parse_refused (units : CodeUnits) (address user : Nat) : Faults Cause.Refused (Payload.parse units address user) := by
  unfold Payload.parse
  refine (block_refused units address).bind fun found => ?_
  split
  · exact refuse_refused _
  · refine (require_refused _ _ _ _).bind fun _ => ?_
    dsimp only
    have targets := fun numbers => mapM_faults (fun d => target_refused user d units.size) numbers
    split
    · exact (targets _).bind fun _ => faults_ok _ _
    · exact guard_refused ((targets _).bind fun _ => faults_ok _ _)
    · exact faults_ok _ _

theorem walk_refused (units : CodeUnits) : Faults Cause.Refused (Walk.ofCode units).ending := by
  have steps : ∀ pc, Faults Cause.Refused (Walk.step units pc) := by
    intro pc
    refine (block_refused units pc).bind fun found => ?_
    split
    · exact faults_ok _ _
    · exact (decode_refused units pc).bind fun _ => faults_ok _ _
  have goes : ∀ fuel pc, Faults Cause.Refused (Walk.go units fuel pc).ending := by
    intro fuel
    induction fuel with
    | zero => exact fun pc => faults_ok _ _
    | succ fuel ih =>
      intro pc
      rw [Walk.go]
      split
      · split
        · rename_i fault failed
          intro other same
          cases same
          exact steps pc fault failed
        · exact ih _
      · exact faults_ok _ _
  exact goes _ _

theorem ofBlock_refused (size : Nat) (block : Block) : Faults Cause.Refused (CodeReferences.ofBlock size block) := by
  unfold CodeReferences.ofBlock
  split
  · exact faults_ok _ _
  · split
    · exact (target_refused _ _ _).bind fun _ => faults_ok _ _
    · exact (target_refused _ _ _).bind fun _ => faults_ok _ _
    · exact (target_refused _ _ _).bind fun _ => faults_ok _ _
    · exact (target_refused _ _ _).bind fun _ => faults_ok _ _
    · exact (target_refused _ _ _).bind fun _ => faults_ok _ _
    · exact (target_refused _ _ _).bind fun _ => guard_refused (faults_ok _ _)
    · exact faults_ok _ _

theorem ofWalk_refused (size : Nat) (units : CodeUnits) : Faults Cause.Refused (CodeReferences.ofWalk size (Walk.ofCode units)) :=
  (mapM_faults (ofBlock_refused size) _).bind fun _ => (walk_refused units).bind fun _ => guard_refused (faults_ok _ _)

namespace LabelTable

theorem attachAll_refused (units : CodeUnits) (t : LabelTable) (uses : List PayloadUse) : Faults Cause.Refused (attachAll units t uses) := by
  have attached : ∀ t use, Faults Cause.Refused (attach units t use) := fun _ _ =>
    (parse_refused _ _ _).bind fun _ => guard_refused (faults_ok _ _)
  induction uses generalizing t with
  | nil => exact faults_ok _ _
  | cons use rest ih => exact (attached t use).bind fun here => (ih here.1).bind fun _ => faults_ok _ _

theorem markTarget_refused (t : LabelTable) (address : Nat) : Faults Cause.Refused (t.markTarget address) := by
  unfold markTarget
  split
  · exact refuse_refused _
  · exact faults_ok _ _

theorem markHandler_refused (t : LabelTable) (address : Nat) : Faults Cause.Refused (t.markHandler address) := by
  unfold markHandler
  split
  · exact refuse_refused _
  · exact faults_ok _ _

theorem markTry_refused {range : TryItem} (fits : range.start.toNat + range.count.toNat < 2 ^ 32) (t : LabelTable) : Faults Cause.Refused (t.markTry code range) := by
  have ends : range.stop = .ok (range.start.toNat + range.count.toNat) := if_pos fits
  unfold markTry
  refine guard_refused ?_
  rw [ends,ok_bind]
  refine guard_refused ?_
  dsimp only
  split
  · exact faults_ok _ _
  · exact foldlM_faults (fun address _ t => markHandler_refused t address) _

theorem scan_refused (fits : ∀ range ∈ code.tries, range.start.toNat + range.count.toNat < 2 ^ 32) : Faults Cause.Refused (scan code) :=
  (ofWalk_refused _ _).bind fun _ => (attachAll_refused _ _ _).bind fun _ =>
    (foldlM_faults (fun address _ t => markTarget_refused t address) _).bind fun _ =>
      (foldlM_faults (fun range member t => markTry_refused (fits range member) t) _).bind fun _ => faults_ok _ _

end LabelTable

theorem range_sums_overflow_iff (bytes : Bytes) (start : Nat) :
    (∀ code stop, CodeItem.read bytes start = .ok (code,stop) →
      (∀ t ∈ code.tries, t.start.toNat + t.count.toNat ≤ code.units.size ∧ t.stop = .ok (t.start.toNat + t.count.toNat)) ∧
        Faults Cause.Refused (LabelTable.scan code)) ∧
    ((∃ fault, CodeItem.read bytes start = .error fault ∧ fault.cause = .overflow) ↔
      ∃ code entries stop, CodeItem.Stands bytes start code entries stop ∧ ∃ before t after, code.tries = before ++ t :: after ∧
        (∀ u ∈ before, u.Kept code.units.size code.handlers) ∧ code.handlers.contains t.handler.toNat = true ∧
          2 ^ 32 ≤ t.start.toNat + t.count.toNat) := by
  refine ⟨?_,CodeItem.read_overflow⟩
  intro code stop read
  obtain ⟨entries,stands,kept⟩ := CodeItem.read_ok.mp read
  have size := stands.size_lt
  have fits : ∀ t ∈ code.tries, t.start.toNat + t.count.toNat < 2 ^ 32 := fun t member => (kept t member).2.trans_lt size
  exact ⟨fun t member => ⟨(kept t member).2,if_pos (fits t member)⟩,LabelTable.scan_refused fits⟩

def oneRange (a b c d : UInt8) : Bytes :=
  #[1,0,0,0,0,0,1,0,0,0,0,0,2,0,0,0,0x0e,0,0x0e,0,a,b,c,d,1,0,1,0,1,0,1]

def oneRangeItem : CodeItem where
  registers := 1
  ins := 0
  outs := 0
  debugInfo := 0
  units := .replicate 2 0x0e
  tries := [⟨1,1,1⟩]
  handlers := [(1,⟨[],some 1⟩)]

-- The range ends past the code, and so far past it that the sum is past the last word.
theorem oneRange_overflows : CodeItem.read (oneRange 0xff 0xff 0xff 0xff) 0 = .error ⟨.overflow,[]⟩ := rfl

theorem range_sums_overflow_iff_oneRange :
    (CodeItem.read (oneRange 1 0 0 0) 0 = .ok (oneRangeItem,31) ∧ Faults Cause.Refused (LabelTable.scan oneRangeItem)) ∧
    ∃ code entries stop, CodeItem.Stands (oneRange 0xff 0xff 0xff 0xff) 0 code entries stop ∧ ∃ before t after,
      code.tries = before ++ t :: after ∧ (∀ u ∈ before, u.Kept code.units.size code.handlers) ∧
        code.handlers.contains t.handler.toNat = true ∧ 2 ^ 32 ≤ t.start.toNat + t.count.toNat := by
  have read : CodeItem.read (oneRange 1 0 0 0) 0 = .ok (oneRangeItem,31) := rfl
  have overflows : CodeItem.read (oneRange 0xff 0xff 0xff 0xff) 0 = .error ⟨.overflow,[]⟩ := rfl
  exact ⟨⟨read,((range_sums_overflow_iff _ 0).1 _ _ read).2⟩,(range_sums_overflow_iff _ 0).2.mp ⟨_,overflows,rfl⟩⟩

end Restack
