import Mathlib
import Restack.Body.DebugInfo
import Restack.Proofs.Bytes.Local
import Restack.Proofs.Container.Contents
import Restack.Proofs.TryRanges

namespace Restack

-- Where a debug program takes indices of strings and types, and what becomes of it where one of them has no answer. The
-- program is given up at the first such index that it comes to. It does not come to those after it, nor to those after a step
-- that cannot be done.

namespace DebugOp

-- The indices that a step takes to begin a variable, each where the ones before it end.
inductive VariableIndex (c : Container) (extended : Bool) (start : Nat) : (UInt32 → Except Fault String) → Nat → Prop where
  | name : register c.bytes start = .ok (r,place) → VariableIndex c extended start c.string place
  | type : register c.bytes start = .ok (r,one) → optionalName c.string c.bytes one = .ok (name,place) →
    VariableIndex c extended start c.type place
  | signature : register c.bytes start = .ok (r,one) → optionalName c.string c.bytes one = .ok (name,two) →
    optionalName c.type c.bytes two = .ok (type,place) → extended = true → VariableIndex c extended start c.string place

-- The indices of a step. Each has the table that it is looked up in and the place where its number begins.
inductive IndexAt (c : Container) (start : Nat) : (UInt32 → Except Fault String) → Nat → Prop where
  | start : c.bytes[start]? = some 0x03 → VariableIndex c false (start + 1) lookup place → IndexAt c start lookup place
  | startExtended : c.bytes[start]? = some 0x04 → VariableIndex c true (start + 1) lookup place → IndexAt c start lookup place
  | file : c.bytes[start]? = some 0x09 → IndexAt c start c.string (start + 1)

end DebugOp

-- Steps of a program from one place to another, none of them its end.
inductive DebugState.Passes (c : Container) : DebugState → Nat → DebugState → Nat → Prop where
  | here : Passes c s start s start
  | step {s next t : DebugState} {op : DebugOp} {start middle stop : Nat} : DebugOp.read c c.bytes start = .ok (op,middle) →
    op ≠ .endSequence → s.step op = .ok next → Passes c next middle t stop → Passes c s start t stop

namespace DebugInfo

def Headed (c : Container) (offset line count : UInt32) (first : Nat) : Prop :=
  ∃ middle, Reader.uleb128 c.bytes offset.toNat = .ok (line,middle) ∧ Reader.uleb128 c.bytes middle = .ok (count,first)

inductive IndexAt (c : Container) (offset : UInt32) (file : Option String) (labels : LabelTable) :
    (UInt32 → Except Fault String) → Nat → Prop where
  | parameter : Headed c offset line count first → k < count.toNat →
    Reader.times k (DebugOp.optionalName c.string) c.bytes first = .ok (names,place) → IndexAt c offset file labels c.string place
  | step : Headed c offset line count first →
    Reader.times count.toNat (DebugOp.optionalName c.string) c.bytes first = .ok (names,begins) →
    DebugState.Passes c { line := line.toNat, file, labels } begins s start → DebugOp.IndexAt c start lookup place →
    IndexAt c offset file labels lookup place

end DebugInfo

namespace Reader

variable {α : Type} {r : Reader α} {bytes : Bytes} {start count : Nat} {fault : Fault}

theorem lift_error {x : Except Fault α} : (liftM x : Reader α) bytes start = .error fault ↔ x = .error fault := by
  change Reader.lift x bytes start = .error fault ↔ _
  cases x <;> simp [Reader.lift]

theorem times_succ (count : Nat) (r : Reader α) : times (count + 1) r = do
    let first ← r
    let rest ← times count r
    return first :: rest := by
  have counted : ∀ i j, timesFrom (fun _ => r) i count = timesFrom (fun _ => r) j count := by
    induction count with
    | zero => exact fun _ _ => rfl
    | succ count ih =>
      intro i j
      rw [timesFrom,timesFrom,ih (i + 1) (j + 1)]
  rw [times,timesFrom,counted 1 0]
  rfl

theorem times_error : times count r bytes start = .error fault ↔
    ∃ k < count, ∃ values place, times k r bytes start = .ok (values,place) ∧ r bytes place = .error fault := by
  induction count generalizing start with
  | zero =>
    constructor
    · intro failed
      cases failed
    · intro missed
      obtain ⟨k,less,-⟩ := missed
      omega
  | succ count ih =>
    rw [times_succ]
    constructor
    · intro failed
      rcases bind_error.mp failed with here | ⟨first,middle,here,failed⟩
      · exact ⟨0,Nat.succ_pos _,[],start,rfl,here⟩
      · rcases bind_error.mp failed with later | ⟨_,_,-,failed⟩
        · obtain ⟨k,less,values,place,before,stopped⟩ := ih.mp later
          refine ⟨k + 1,Nat.succ_lt_succ less,first :: values,place,?_,stopped⟩
          rw [times_succ,bind_read here,bind_read before]
          rfl
        · cases failed
    · intro missed
      obtain ⟨k,less,values,place,before,stopped⟩ := missed
      apply bind_error.mpr
      cases k with
      | zero =>
        cases before
        exact .inl stopped
      | succ k =>
        rw [times_succ] at before
        obtain ⟨first,middle,here,before⟩ := reader_bind_ok.mp before
        obtain ⟨rest,last,before,same⟩ := reader_bind_ok.mp before
        cases same
        refine .inr ⟨first,middle,here,bind_error.mpr (.inl (ih.mpr ?_))⟩
        exact ⟨k,Nat.lt_of_succ_lt_succ less,rest,place,before,stopped⟩

theorem uleb128p1_local : Local 1 uleb128p1 uleb128p1 := (unsignedLeb_local _).bind fun _ => lift_local fun _ same => same

theorem sleb128_inContainer : Reader.InContainer sleb128 := by
  intro bytes offset
  unfold sleb128
  split
  · exact inContainer_ok _
  · exact inContainer_reject _

end Reader

open Reader (bind_error bind_read lift_error times_error Local pure_local lift_local u1_local uleb128_local sleb128_local uleb128p1_local
  u1_inContainer uleb128_inContainer sleb128_inContainer pure_inContainer)

namespace DebugOp

variable {c : Container} {lookup : UInt32 → Except Fault String} {start place : Nat} {fault : Fault} {extended : Bool}

theorem optionalName_local : Local 1 (optionalName lookup) (optionalName lookup) := by
  refine uleb128p1_local.bind (k := 0) fun index => ?_
  split
  · exact pure_local none
  · exact (lift_local fun _ same => same).bind fun _ => pure_local _

theorem register_local : Local 1 register register := uleb128_local.bind fun _ => pure_local _

-- Without a name or a type there is no variable, whatever else a step says.
def named? (name descriptor signature : Option String) : Option Variable :=
  name.bind fun name => descriptor.map fun descriptor => { name, descriptor, signature }

def signature (c : Container) (extended : Bool) : Reader (Option String) :=
  if extended then optionalName c.string else Pure.pure none

theorem readStartLocal_eq (c : Container) (extended : Bool) : readStartLocal c extended = do
    let r ← register
    let name ← optionalName c.string
    let descriptor ← optionalName c.type
    let signature ← signature c extended
    return .startLocal r (named? name descriptor signature) := by
  refine congrArg (register >>= ·) (funext fun r => congrArg (optionalName c.string >>= ·) (funext fun name =>
    congrArg (optionalName c.type >>= ·) (funext fun descriptor => ?_)))
  cases extended <;> cases name <;> cases descriptor <;> rfl

theorem readStartLocal_local (c : Container) (extended : Bool) : Local 1 (readStartLocal c extended) (readStartLocal c extended) := by
  have signed : Local 0 (signature c extended) (signature c extended) := by
    unfold signature
    split
    · exact optionalName_local.weaken (Nat.zero_le 1)
    · exact pure_local none
  rw [readStartLocal_eq]
  exact register_local.bind fun _ => optionalName_local.bind fun _ => optionalName_local.bind fun _ => signed.bind fun _ => pure_local _

theorem read_local (c : Container) : Local 1 (read c) (read c) := by
  refine u1_local.bind (k := 0) fun opcode => ?_
  split
  · exact pure_local _
  · exact (uleb128_local.bind fun _ => pure_local _).weaken (Nat.zero_le 1)
  · exact (sleb128_local.bind fun _ => pure_local _).weaken (Nat.zero_le 1)
  · exact (readStartLocal_local c false).weaken (Nat.zero_le 1)
  · exact (readStartLocal_local c true).weaken (Nat.zero_le 1)
  · exact (register_local.bind fun _ => pure_local _).weaken (Nat.zero_le 1)
  · exact (register_local.bind fun _ => pure_local _).weaken (Nat.zero_le 1)
  · exact pure_local _
  · exact pure_local _
  · exact (optionalName_local.bind fun _ => pure_local _).weaken (Nat.zero_le 1)
  · exact pure_local _

theorem register_inContainer : Reader.InContainer register := uleb128_inContainer.bind fun _ => pure_inContainer _

-- Where a reader overflows, one of the indices does that it comes to.
def OverflowsBy (c : Container) (index : (UInt32 → Except Fault String) → Nat → Prop) (start : Nat) (r : Reader α) : Prop :=
  ∀ fault, r c.bytes start = .error fault → fault.cause = .overflow →
    ∃ lookup place, index lookup place ∧ optionalName lookup c.bytes place = .error fault

variable {index : (UInt32 → Except Fault String) → Nat → Prop} {r : Reader α}

theorem overflowsBy_inContainer (inside : r.InContainer) : OverflowsBy c index start r := by
  intro fault failed overflows
  obtain ⟨cause,stored⟩ := inside _ _ _ failed
  cases stored.symm.trans overflows

theorem overflowsBy_pure (a : α) : OverflowsBy c index start (Pure.pure a : Reader α) := overflowsBy_inContainer (pure_inContainer a)

theorem overflowsBy_refused {x : Except Fault α} (told : Faults Cause.Refused x) : OverflowsBy c index start (liftM x : Reader α) := by
  intro fault failed overflows
  obtain ⟨why,same⟩ := told fault (lift_error.mp failed)
  cases same.symm.trans overflows

theorem overflowsBy_index (comes : index lookup start) : OverflowsBy c index start (optionalName lookup) :=
  fun _ failed _ => ⟨lookup,start,comes,failed⟩

theorem OverflowsBy.bind {f : α → Reader β} (first : OverflowsBy c index start r)
    (rest : ∀ a middle, r c.bytes start = .ok (a,middle) → OverflowsBy c index middle (f a)) : OverflowsBy c index start (r >>= f) := by
  intro fault failed overflows
  rcases bind_error.mp failed with here | ⟨a,middle,read,failed⟩
  · exact first fault here overflows
  · exact rest a middle read fault failed overflows

theorem overflowsBy_offset {f : Nat → Reader β} (rest : OverflowsBy c index start (f start)) :
    OverflowsBy c index start (Reader.offset >>= f) := rest

theorem overflowsBy_size {f : Nat → Reader β} (rest : OverflowsBy c index start (f c.bytes.size)) :
    OverflowsBy c index start (Reader.size >>= f) := rest

theorem OverflowsBy.imp {other : (UInt32 → Except Fault String) → Nat → Prop} (known : OverflowsBy c index start r)
    (comes : ∀ lookup place, index lookup place → other lookup place) : OverflowsBy c other start r := by
  intro fault failed overflows
  obtain ⟨lookup,place,asked,here⟩ := known fault failed overflows
  exact ⟨lookup,place,comes lookup place asked,here⟩

theorem readStartLocal_overflowsBy : OverflowsBy c (VariableIndex c extended start) start (readStartLocal c extended) := by
  rw [readStartLocal_eq]
  refine (overflowsBy_inContainer register_inContainer).bind fun r one first => ?_
  refine (overflowsBy_index (.name first)).bind fun name two second => ?_
  refine (overflowsBy_index (.type first second)).bind fun type three third => ?_
  refine OverflowsBy.bind ?_ fun _ _ _ => overflowsBy_pure _
  cases extended with
  | false => exact overflowsBy_pure none
  | true => exact overflowsBy_index (.signature first second third rfl)

theorem read_overflowsBy : OverflowsBy c (IndexAt c start) start (read c) := by
  refine (overflowsBy_inContainer u1_inContainer).bind fun opcode one first => ?_
  obtain ⟨stands,rfl⟩ := Reader.u1_ok.mp first
  have is : ∀ b : UInt8, opcode.toNat = b.toNat → c.bytes[start]? = some b := by
    intro b same
    rw [stands,UInt8.toNat_inj.mp same]
  split
  · exact overflowsBy_pure _
  · exact overflowsBy_inContainer (uleb128_inContainer.bind fun _ => pure_inContainer _)
  · exact overflowsBy_inContainer (sleb128_inContainer.bind fun _ => pure_inContainer _)
  · rename_i begins
    exact readStartLocal_overflowsBy.imp fun _ _ => .start (is 0x03 begins)
  · rename_i begins
    exact readStartLocal_overflowsBy.imp fun _ _ => .startExtended (is 0x04 begins)
  · exact overflowsBy_inContainer (register_inContainer.bind fun _ => pure_inContainer _)
  · exact overflowsBy_inContainer (register_inContainer.bind fun _ => pure_inContainer _)
  · exact overflowsBy_pure _
  · exact overflowsBy_pure _
  · rename_i named
    exact (overflowsBy_index (.file (is 0x09 named))).bind fun _ _ _ => overflowsBy_pure _
  · exact overflowsBy_pure _

theorem VariableIndex.fails (index : VariableIndex c extended start lookup place)
    (failed : optionalName lookup c.bytes place = .error fault) : readStartLocal c extended c.bytes start = .error fault := by
  rw [readStartLocal_eq]
  cases index with
  | name first =>
    rw [bind_read first]
    exact bind_error.mpr (.inl failed)
  | type first second =>
    rw [bind_read first,bind_read second]
    exact bind_error.mpr (.inl failed)
  | signature first second third long =>
    subst long
    rw [bind_read first,bind_read second,bind_read third]
    exact bind_error.mpr (.inl failed)

theorem IndexAt.fails (index : IndexAt c start lookup place) (failed : optionalName lookup c.bytes place = .error fault) :
    read c c.bytes start = .error fault := by
  have opcode : ∀ b, c.bytes[start]? = some b → Reader.u1 c.bytes start = .ok (b,start + 1) := fun b stands =>
    Reader.u1_ok.mpr ⟨stands,rfl⟩
  unfold read
  cases index with
  | start stands index =>
    rw [bind_read (opcode _ stands)]
    exact index.fails failed
  | startExtended stands index =>
    rw [bind_read (opcode _ stands)]
    exact index.fails failed
  | file stands =>
    rw [bind_read (opcode _ stands)]
    exact bind_error.mpr (.inl failed)

theorem IndexAt.inside (index : IndexAt c start lookup place) : start < c.bytes.size := by
  cases index with
  | start stands _ | startExtended stands _ | file stands => exact (Array.getElem?_eq_some_iff.mp stands).1

theorem IndexAt.lookups (index : IndexAt c start lookup place) (i : UInt32) : InContainer (lookup i) := by
  cases index with
  | start _ index | startExtended _ index =>
    cases index with
    | name _ | signature _ _ _ _ => exact string_inContainer c i
    | type _ _ => exact type_inContainer c i
  | file _ => exact string_inContainer c i

end DebugOp

open DebugOp (OverflowsBy overflowsBy_inContainer overflowsBy_pure overflowsBy_refused overflowsBy_offset overflowsBy_size)

namespace DebugState

variable {c : Container} {s t : DebugState} {op : DebugOp} {fuel start stop : Nat} {fault : Fault}

theorem step_refused (s : DebugState) (op : DebugOp) : Faults Cause.Refused (s.step op) := by
  cases op with
  | endSequence | advanceLine _ | startLocal _ _ | restartLocal _ | mark | setFile _ => exact faults_ok _ _
  | advanceAddress delta =>
    simp only [step]
    split
    · exact refuse_refused _
    · exact faults_ok _ _
  | endLocal register =>
    simp only [step,endLocal]
    split
    · exact faults_ok _ _
    · exact refuse_refused _
  | special opcode =>
    simp only [step,special]
    exact guard_refused (guard_refused (faults_ok _ _))

theorem run_overflowsBy : OverflowsBy c (fun lookup place => ∃ t stop, Passes c s start t stop ∧ DebugOp.IndexAt c stop lookup place)
    start (run c fuel s) := by
  induction fuel generalizing s start with
  | zero => exact overflowsBy_refused (refuse_refused _)
  | succ fuel ih =>
    rw [run]
    refine overflowsBy_offset (overflowsBy_size ?_)
    split
    · exact overflowsBy_refused (refuse_refused _)
    · refine (DebugOp.read_overflowsBy.imp fun _ _ index => ⟨s,start,.here,index⟩).bind fun op middle read => ?_
      refine (overflowsBy_refused (step_refused s op)).bind fun next place stepped => ?_
      obtain ⟨done,rfl⟩ := reader_lift_ok.mp stepped
      split
      · exact overflowsBy_pure next
      · rename_i going
        apply ih.imp
        intro lookup place reached
        obtain ⟨t,stop,passes,index⟩ := reached
        exact ⟨t,stop,.step read going done passes,index⟩

-- Every step takes a byte, so there is fuel for all of them.
theorem Passes.fails (passes : Passes c s start t stop) (inside : stop < c.bytes.size) (enough : c.bytes.size - start ≤ fuel)
    (failed : DebugOp.read c c.bytes stop = .error fault) : run c fuel s c.bytes start = .error fault := by
  induction passes generalizing fuel with
  | here =>
    obtain ⟨fuel,rfl⟩ := Nat.exists_eq_add_one_of_ne_zero (show fuel ≠ 0 by omega)
    rw [run,Reader.offset_bind,Reader.size_bind,if_neg (Nat.not_le.mpr inside)]
    exact bind_error.mpr (.inl failed)
  | @step s next t op start middle stop read going stepped rest ih =>
    have moved := (DebugOp.read_local c).reaches read
    obtain ⟨fuel,rfl⟩ := Nat.exists_eq_add_one_of_ne_zero (show fuel ≠ 0 by omega)
    have lifted : (liftM (s.step op) : Reader DebugState) c.bytes middle = .ok (next,middle) := reader_lift_ok.mpr ⟨stepped,rfl⟩
    rw [run,Reader.offset_bind,Reader.size_bind,if_neg (by omega),bind_read read,bind_read lifted,if_neg going]
    exact ih inside (by omega) failed

end DebugState

namespace DebugInfo

variable {c : Container} {offset : UInt32} {file : Option String} {labels : LabelTable} {lookup : UInt32 → Except Fault String}
  {place : Nat} {fault : Fault}

theorem readProgram_overflowsBy : OverflowsBy c (IndexAt c offset file labels) offset.toNat (readProgram c file labels) := by
  refine (overflowsBy_inContainer uleb128_inContainer).bind fun line one first => ?_
  refine (overflowsBy_inContainer uleb128_inContainer).bind fun count two second => ?_
  have headed : Headed c offset line count two := ⟨one,first,second⟩
  refine OverflowsBy.bind ?_ fun names three third => ?_
  · intro fault failed _
    obtain ⟨k,less,values,place,before,stopped⟩ := times_error.mp failed
    exact ⟨_,_,.parameter headed less before,stopped⟩
  · refine overflowsBy_offset (overflowsBy_size (OverflowsBy.bind ?_ fun _ _ _ => overflowsBy_pure _))
    apply DebugState.run_overflowsBy.imp
    intro lookup place reached
    obtain ⟨s,start,passes,index⟩ := reached
    exact .step headed third passes index

theorem IndexAt.fails (index : IndexAt c offset file labels lookup place)
    (failed : DebugOp.optionalName lookup c.bytes place = .error fault) :
    readProgram c file labels c.bytes offset.toNat = .error fault := by
  unfold readProgram
  cases index with
  | parameter headed less before =>
    obtain ⟨middle,first,second⟩ := headed
    rw [bind_read first,bind_read second]
    exact bind_error.mpr (.inl (times_error.mpr ⟨_,less,_,_,before,failed⟩))
  | step headed names passes index =>
    obtain ⟨middle,first,second⟩ := headed
    rw [bind_read first,bind_read second,bind_read names,Reader.offset_bind,Reader.size_bind]
    exact bind_error.mpr (.inl (passes.fails index.inside (Nat.le_refl _) (index.fails failed)))

theorem IndexAt.lookups (index : IndexAt c offset file labels lookup place) (i : UInt32) : InContainer (lookup i) := by
  cases index with
  | parameter _ _ _ => exact string_inContainer c i
  | step _ _ _ index => exact index.lookups i

end DebugInfo

end Restack
