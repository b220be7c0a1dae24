import Mathlib
import Restack.Proofs.Draft.Sites
import Restack.Proofs.Frame.Meeting
import Restack.Proofs.Lowering.Transfers

namespace Restack

open Lowering

-- Lowering changes its draft only by calls on it. So what every call keeps, on whatever groups it is
-- made, holds in all states that lowering comes to.

variable {Q : Draft → Prop} {d e : Draft} {f incoming m : Frame} {arrival : Arrival} {p : Plan} {s t start : State}

structure Draft.Kept (Q : Draft → Prop) : Prop where
  push : ∀ {d : Draft} (event : Event), Q d → Q (d.push event)
  pushSite : ∀ {d : Draft} (g : Group) (i : Insn), Q d → Q (d.pushSite g i)
  newGroup : ∀ {d : Draft} (wide : Bool), Q d → Q (d.newGroup wide).2
  union : ∀ {d : Draft} (a b : Group), Q d → Q (d.union a b).2
  resolve : ∀ {d e : Draft} {g : Group} {type : Descriptor}, Q d → d.resolve g type = .ok e → Q e

namespace Draft.Kept

variable (kept : Draft.Kept Q)
include kept

theorem resolveDefaults (holds : Q d) (done : d.resolveDefaults = .ok e) : Q e := by
  refine foldlM_keeps (P := Q) ?_ holds done
  intro d id e _ before done
  unfold Draft.resolveDefault at done
  dsimp only at done
  split at done
  · cases done
    exact before
  · exact kept.resolve before done

theorem meeting {here there state : RegisterState} (met : RegisterState.Meeting d arrival here there state e) (holds : Q d) : Q e := by
  cases met with
  | narrow _ | wide _ => exact kept.union _ _ holds
  | openTyped _ _ done | typedOpen _ _ done => exact kept.resolve holds done
  | _ => exact holds

theorem merge (holds : Q d) (done : f.merge incoming arrival d = .ok (m,e)) : Q e := by
  refine foldlM_keeps (P := fun next : Frame × Draft => Q next.2) ?_ holds (Frame.merge_ok done).2
  rintro ⟨f,d⟩ n next _ before done
  obtain ⟨met,k,meet,rfl⟩ := Frame.mergeAt_ok.mp done
  exact kept.meeting (RegisterState.meet_meeting meet) before

end Draft.Kept

namespace Lowering

def State.Drafts (Q : Draft → Prop) (s : State) : Prop := Q s.draft

section

variable (kept : Draft.Kept Q)
include kept

theorem drafts_arrive (label : Label) (arrival : Arrival) : Maintains (State.Drafts Q) fun s => s.arrive label arrival := by
  intro s t holds done
  rcases arrive_ok.mp done with ⟨-,rfl⟩ | ⟨stored,joined,d,-,merged,rfl⟩
  · exact holds
  · exact kept.merge holds merged

theorem drafts_enter (label : Label) (isTarget : Bool) : Maintains (State.Drafts Q) (enterLabel label isTarget) := by
  intro s t holds done
  rcases enterLabel_ok.mp done with ⟨stored,-,-,rfl⟩ | ⟨stored,joined,d,-,-,merged,rfl⟩ | ⟨-,rfl⟩
  · exact holds
  · exact kept.merge holds merged
  · cases isTarget <;> exact holds

theorem drafts_elementary (p : Plan) : ElementaryInvariant p (State.Drafts Q) fun _ _ => True where
  push := fun _ event holds => kept.push event holds
  pending := fun _ _ holds => holds
  terminal := fun _ _ holds => holds
  site := fun _ g i holds => kept.pushSite g i holds
  group := fun _ wide holds => kept.newGroup wide holds
  union := fun _ _ _ _ _ ga gb holds _ _ _ _ _ => kept.union ga gb holds
  resolve := by
    intro s t r state g type holds _ _ _ done
    simp only [State.resolve,bind_eq_ok,pure_eq_ok] at done
    obtain ⟨d,resolved,rfl⟩ := done
    exact kept.resolve holds resolved
  write := by
    intro s t r state holds _ done
    simp only [State.setRegister,bind_eq_ok,pure_eq_ok] at done
    obtain ⟨f,-,rfl⟩ := done
    exact holds
  arrive := drafts_arrive kept
  enter := drafts_enter kept
  typed := fun _ _ => trivial
  fresh := fun _ _ => trivial
  read := fun _ _ _ _ _ => trivial
  waits := fun _ _ _ _ _ => trivial

theorem Reaches.drafts (reached : Reaches p start s) (holds : Q start.draft) : Q s.draft :=
  reached.keeps (drafts_elementary kept p) (fun _ _ holds done => kept.resolveDefaults holds done) holds

end

theorem bounded_kept : Draft.Kept Draft.Bounded where
  push := fun event bounded => bounded.push event
  pushSite := fun g i bounded => bounded.pushSite g i
  newGroup := fun wide bounded => bounded.newGroup wide
  union := fun a b bounded => bounded.union a b
  resolve := by
    intro d e g type bounded done
    rcases Draft.resolve_open_or_same done with isOpen | rfl
    · exact bounded.resolve isOpen done
    · exact bounded

-- Placeholders lie among the events, so an event that is emitted plainly waits for nothing.
theorem Reaches.bounded {c : Container} {shape : MethodShape} {item : CodeItem} {labels : LabelTable}
    (prepared : prepare c shape item labels = .ok (p,start)) (reached : Reaches p start s) : s.draft.Bounded := by
  refine reached.drafts bounded_kept ?_
  simp only [prepare,bind_eq_ok,pure_eq_ok,Prod.mk.injEq] at prepared
  obtain ⟨slots,-,frame,-,handlers,-,-,rfl⟩ := prepared
  exact Draft.bounded_empty

end Lowering

end Restack
