import Mathlib
import Restack.Lowering.Plan
import Restack.Proofs.Body.Targets

namespace Restack

open Lowering

-- A table with labels for more addresses. They are numbered on from the old ones and nothing leads
-- to them, so what was read from the old table is read from the larger one as well.

variable {c : Container} {code : CodeItem} {t u : LabelTable} {a pc : Nat} {label : Label} {payload : Payload}
  {e : Encoded} {i : Instruction} {blocks : List Block}

structure LabelTable.Grown (t u : LabelTable) : Prop where
  starts : u.starts = t.starts
  stop : u.stop = t.stop
  size : t.entries.length ≤ u.entries.length
  old : ∀ a entry, t.entry? a = some entry → u.entry? a = some entry
  new : ∀ a entry, u.entry? a = some entry → t.entry? a = some entry ∨ t.entries.length ≤ entry.label.number ∧ entry.jumpTarget = false

namespace LabelTable.Grown

theorem refl (t : LabelTable) : t.Grown t := ⟨rfl,rfl,Nat.le_refl _,fun _ _ found => found,fun _ _ found => .inl found⟩

theorem ensure (grown : t.Grown u) (counted : u.Counted) (word : a < 2 ^ 32) : t.Grown (u.ensure a) := by
  refine ⟨(ensure_starts u a).trans grown.starts,(ensure_stop u a).trans grown.stop,
    Nat.le_trans grown.size (length_le_ensure u a),fun b entry found => entry_ensure_of_some (grown.old b entry found),?_⟩
  intro b entry found
  rw [entry_ensure] at found
  split at found
  · rename_i both
    cases found
    exact .inr ⟨counted.next_number (counted.room word both.2) ▸ grown.size,rfl⟩
  · exact grown.new b entry found

variable (grown : t.Grown u)
include grown

theorem labelAt (found : t.labelAt? a = some label) : u.labelAt? a = some label := by
  obtain ⟨entry,known,named⟩ := Option.map_eq_some_iff.mp found
  exact Option.map_eq_some_iff.mpr ⟨entry,grown.old a entry known,named⟩

theorem entry_small (found : u.labelAt? a = some label) (small : label.number < t.entries.length) : u.entry? a = t.entry? a := by
  obtain ⟨entry,known,rfl⟩ := Option.map_eq_some_iff.mp found
  rcases grown.new a entry known with old | ⟨large,-⟩
  · rw [known,old]
  · exact absurd small (Nat.not_lt_of_le large)

theorem small_iff (distinct : t.Distinct) (found : u.labelAt? a = some label) :
    label.number < t.entries.length ↔ t.labelAt? a = some label := by
  constructor
  · intro small
    rw [LabelTable.labelAt?,← grown.entry_small found small]
    exact found
  · intro known
    obtain ⟨entry,here,rfl⟩ := Option.map_eq_some_iff.mp known
    exact distinct.fresh a entry here

theorem targeted (target : u.Targeted label) : t.Targeted label := by
  obtain ⟨a,entry,found,named,mark⟩ := target
  rcases grown.new a entry found with old | ⟨-,plain⟩
  · exact ⟨a,entry,old,named,mark⟩
  · rw [plain] at mark
    cases mark

theorem snap (a : Nat) : u.snap a = t.snap a := by simp only [LabelTable.snap,grown.starts,grown.stop]

theorem stopLabel (last : ∃ entry, t.entry? t.stop = some entry) : u.stopLabel = t.stopLabel := by
  obtain ⟨entry,found⟩ := last
  simp only [LabelTable.stopLabel,LabelTable.labelAt?,grown.stop,found,grown.old _ _ found]

theorem branchLabel (done : t.branchLabel a = .ok label) : u.branchLabel a = .ok label := by
  unfold LabelTable.branchLabel at done ⊢
  cases found : t.entry? a with
  | none => simp [found] at done
  | some entry => rwa [grown.old a entry found,← found]

theorem payloadAt (done : t.payloadAt a = .ok payload) : u.payloadAt a = .ok payload := by
  unfold LabelTable.payloadAt at done ⊢
  cases found : t.entry? a with
  | none => simp [found] at done
  | some entry => rwa [grown.old a entry found,← found]

theorem resolve (done : e.resolve c t pc = .ok i) : e.resolve c u pc = .ok i := by
  have target : e.target u pc = e.target t pc := by simp only [Encoded.target,grown.stop]
  unfold Encoded.resolve at done ⊢
  cases operation : e.opcode.operation with
  | goto | test op | testZero op =>
    simp only [operation,Encoded.branch,target,bind_eq_ok,pure_eq_ok] at done ⊢
    obtain ⟨label,⟨address,reached,named⟩,rfl⟩ := done
    exact ⟨label,⟨address,reached,grown.branchLabel named⟩,rfl⟩
  | fillArrayData =>
    simp only [operation,target,bind_eq_ok] at done ⊢
    obtain ⟨address,reached,payload,read,done⟩ := done
    exact ⟨address,reached,payload,grown.payloadAt read,done⟩
  | packedSwitch =>
    simp only [operation,target,bind_eq_ok] at done ⊢
    obtain ⟨address,reached,payload,read,done⟩ := done
    refine ⟨address,reached,payload,grown.payloadAt read,?_⟩
    cases payload with
    | packedSwitch firstKey targets =>
      simp only [bind_eq_ok,pure_eq_ok] at done ⊢
      obtain ⟨cases,mapped,next,named,rfl⟩ := done
      exact ⟨cases,mapM_mono (fun _ _ => grown.branchLabel) mapped,next,grown.branchLabel named,rfl⟩
    | _ => exact done
  | sparseSwitch =>
    simp only [operation,target,bind_eq_ok] at done ⊢
    obtain ⟨address,reached,payload,read,done⟩ := done
    refine ⟨address,reached,payload,grown.payloadAt read,?_⟩
    cases payload with
    | sparseSwitch keys targets =>
      simp only [bind_eq_ok,pure_eq_ok] at done ⊢
      obtain ⟨cases,mapped,next,named,rfl⟩ := done
      refine ⟨cases,mapM_mono ?_ mapped,next,grown.branchLabel named,rfl⟩
      intro pair found here
      simp only [bind_eq_ok,pure_eq_ok] at here ⊢
      obtain ⟨label,placed,rfl⟩ := here
      exact ⟨label,grown.branchLabel placed,rfl⟩
    | _ => exact done
  | _ => simpa only [operation] using done

theorem handlerLabel (done : Handlers.labelAt t a = .ok label) : Handlers.labelAt u a = .ok label := by
  unfold Handlers.labelAt at done ⊢
  cases found : t.labelAt? a with
  | none => simp [found] at done
  | some known => rwa [grown.labelAt found,← found]

theorem target {pair : Option String × Nat} {found : Handlers.Target} (done : Handlers.target t pair = .ok found) :
    Handlers.target u pair = .ok found := by
  simp only [Handlers.target,bind_eq_ok] at done ⊢
  obtain ⟨label,placed,done⟩ := done
  exact ⟨label,grown.handlerLabel placed,done⟩

theorem handlers {h : Handlers} (done : Handlers.ofCode c code t = .ok h) : Handlers.ofCode c code u = .ok h := by
  refine foldlM_mono ?_ done
  intro h item k step
  unfold Handlers.add at step ⊢
  split at step
  · simp at step
  · simp only [bind_eq_ok,pure_eq_ok,grown.snap] at step ⊢
    obtain ⟨past,ends,start,opens,stop,closes,pairs,listed,targets,mapped,rfl⟩ := step
    exact ⟨past,ends,start,grown.handlerLabel opens,stop,grown.handlerLabel closes,pairs,listed,targets,
      mapM_mono (fun _ _ => grown.target) mapped,rfl⟩

theorem prepare {shape : MethodShape} {p : Plan} {start : State} (done : prepare c shape code t = .ok (p,start)) :
    Lowering.prepare c shape code u = .ok ({ p with labels := u },start) := by
  simp only [Lowering.prepare,bind_eq_ok,pure_eq_ok,Prod.mk.injEq] at done ⊢
  obtain ⟨slots,counted,frame,entered,handlers,found,rfl,rfl⟩ := done
  exact ⟨slots,counted,frame,entered,handlers,grown.handlers found,rfl,rfl⟩

end LabelTable.Grown

theorem LabelTable.Grown.spot (a : Nat) (spot : u.Spot a) (both : t.Grown u ∧ u.Distinct) :
    t.Grown (u.ensure a) ∧ (u.ensure a).Distinct :=
  ⟨both.1.ensure both.2.toCounted (both.2.spots a spot),both.2.ensure (both.2.spots a spot)⟩

theorem LabelTable.debugInfo_grown {file : Option String} {settings : Settings} {info : Option DebugInfo} (distinct : t.Distinct)
    (done : Code.debugInfo c code file settings t = .ok (info,u)) : t.Grown u :=
  (debugInfo_keeps (Q := fun u => t.Grown u ∧ u.Distinct) (fun _ => Grown.spot) ⟨.refl t,distinct⟩ done).1

def BodyItem.isKept (keep : Label → Bool) : BodyItem → Bool
  | .label _ label => keep label
  | .instruction .. => true

namespace LabelTable

def isOld (t : LabelTable) (label : Label) : Bool := label.number < t.entries.length

theorem Grown.labelItems (grown : t.Grown u) (distinct : t.Distinct) (a : Nat) :
    (DecodedBody.labelItems u a).filter (BodyItem.isKept t.isOld) = DecodedBody.labelItems t a := by
  unfold DecodedBody.labelItems
  cases found : u.labelAt? a with
  | none =>
    have absent : t.labelAt? a = none := by
      cases known : t.labelAt? a with
      | none => rfl
      | some label =>
        rw [grown.labelAt known] at found
        cases found
    simp [absent]
  | some label =>
    have small := grown.small_iff distinct found
    cases known : t.labelAt? a with
    | none =>
      have new : ¬ label.number < t.entries.length := by simp [small,known]
      simp [BodyItem.isKept,isOld,new]
    | some other =>
      rw [grown.labelAt known] at found
      cases found
      simp [BodyItem.isKept,isOld,small.mpr known]

theorem Grown.items (grown : t.Grown u) (distinct : t.Distinct) {small large : DecodedBody}
    (after : large.items.filter (BodyItem.isKept t.isOld) = small.items)
    (whole : (DecodedBody.ofBlocks c t small blocks).ending = .ok ()) :
    (DecodedBody.ofBlocks c u large blocks).items.filter (BodyItem.isKept t.isOld) = (DecodedBody.ofBlocks c t small blocks).items := by
  induction blocks with
  | nil => exact after
  | cons block blocks ih =>
    cases block with
    | data address length => exact ih whole
    | instruction pc e =>
      unfold DecodedBody.ofBlocks at whole ⊢
      cases resolved : within (.instruction e.opcode.name pc) (e.resolve c t pc) with
      | error fault => simp [resolved] at whole
      | ok i =>
        have again : within (.instruction e.opcode.name pc) (e.resolve c u pc) = .ok i :=
          within_eq_ok.mpr (grown.resolve (within_eq_ok.mp resolved))
        simp only [resolved] at whole
        simp only [again,DecodedBody.prepend,List.filter_append,grown.labelItems distinct,ih whole]
        rfl

theorem Grown.body (grown : t.Grown u) (laid : t.Laid code) (whole : (DecodedBody.ofCode c code.units t).ending = .ok ()) :
    (DecodedBody.ofCode c code.units u).items.filter (BodyItem.isKept t.isOld) = (DecodedBody.ofCode c code.units t).items := by
  refine grown.items laid.distinct ?_ whole
  obtain ⟨entry,found⟩ := laid.last
  have label : t.stopLabel = entry.label := by simp [LabelTable.stopLabel,LabelTable.labelAt?,found]
  unfold DecodedBody.last
  cases (Walk.ofCode code.units).ending with
  | error fault => rfl
  | ok stop =>
    simp only [grown.stop,grown.stopLabel laid.last]
    simp [BodyItem.isKept,isOld,label,laid.distinct.fresh _ _ found]

end LabelTable

end Restack
