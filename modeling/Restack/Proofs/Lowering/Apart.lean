import Mathlib
import Restack.Proofs.Frame.Apart
import Restack.Proofs.Lowering.Evolves
import Restack.Proofs.Lowering.Transfers

namespace Restack.Lowering

open Draft (Gauged Retains)

-- In the frame of a state and in all frames that are stored for labels, registers stay in pairs.

variable {p : Plan} {s t m : State} {d : Draft} {f : Frame} {state : RegisterState} {r : Nat} {type : Descriptor} {g : Group}
  {label : Label} {arrival : Arrival}

structure State.Apart (p : Plan) (s : State) : Prop where
  draft : s.draft.Gauged
  frame : s.frame.Apart s.draft
  size : s.frame.size = p.slots.registers
  joins : ∀ n f, s.joins.get? n = some f → f.Apart s.draft ∧ f.size = p.slots.registers

namespace State.Apart

theorem withDraft (apart : s.Apart p) (gauged : d.Gauged) (kept : Retains s.draft d) :
    State.Apart p { s with draft := d } where
  draft := gauged
  frame := apart.frame.retains kept
  size := apart.size
  joins := fun n f found => ⟨(apart.joins n f found).1.retains kept,(apart.joins n f found).2⟩

theorem withFrame (apart : s.Apart p) (frame : f.Apart s.draft) (size : f.size = p.slots.registers) :
    State.Apart p { s with frame := f } := ⟨apart.draft,frame,size,apart.joins⟩

theorem withJoin (apart : s.Apart p) (frame : f.Apart s.draft) (size : f.size = p.slots.registers) (n : Nat) :
    State.Apart p { s with joins := NatMap.insert n f s.joins } := by
  refine ⟨apart.draft,apart.frame,apart.size,?_⟩
  intro k h found
  rw [NatMap.get?_insert] at found
  split at found
  · cases found
    exact ⟨frame,size⟩
  · exact apart.joins k h found

theorem push (apart : s.Apart p) (event : Event) : State.Apart p { s with draft := s.draft.push event } :=
  apart.withDraft (apart.draft.push event) (Draft.retains_push s.draft event)

theorem emitSite (apart : s.Apart p) (g : Group) (i : Insn) : (s.emitSite g i).Apart p := by
  have base := apart.withDraft (apart.draft.pushSite g i) (Draft.retains_pushSite s.draft g i)
  exact ⟨base.draft,base.frame,base.size,base.joins⟩

theorem register (apart : s.Apart p) (got : s.register r = .ok state) :
    state.Fits s.draft ∧ ∀ g, state.group? = some g → s.draft.resolution? g = none := by
  obtain ⟨-,rfl⟩ := Frame.get_state got
  exact ⟨RegisterState.settled_fits (apart.frame.fits r),fun _ => RegisterState.settled_open⟩

theorem setRegister (apart : s.Apart p) (fits : state.Fits s.draft) (done : s.setRegister r state = .ok t) : t.Apart p := by
  obtain ⟨f,written,rfl⟩ := setRegister_frame done
  obtain ⟨size,-⟩ := Frame.set_state written
  exact apart.withFrame (apart.frame.set fits written) (size.trans apart.size)

theorem resolve (apart : s.Apart p) (has : s.draft.Has g) (fits : type.isWide = true → s.draft.isWide g = true)
    (done : s.resolve g type = .ok t) : t.Apart p := by
  simp only [State.resolve,bind_eq_ok,pure_eq_ok] at done
  obtain ⟨d,resolved,rfl⟩ := done
  exact apart.withDraft (apart.draft.resolve has fits resolved) (Draft.retains_resolve resolved)

theorem resolveDefaults (apart : s.Apart p) (done : s.draft.resolveDefaults = .ok d) : State.Apart p { s with draft := d } := by
  obtain ⟨gauged,kept⟩ := apart.draft.resolveDefaults done
  exact apart.withDraft gauged kept

theorem arrive (apart : s.Apart p) (done : s.arrive label arrival = .ok t) : t.Apart p := by
  rcases arrive_ok.mp done with ⟨-,rfl⟩ | ⟨stored,joined,d,found,merged,rfl⟩
  · exact apart.withJoin apart.frame apart.size label.number
  · obtain ⟨old,size⟩ := apart.joins _ _ found
    obtain ⟨gauged,kept,after,same⟩ := old.merge apart.draft apart.frame merged
    exact (apart.withDraft gauged kept).withJoin after (same.trans size) label.number

theorem enter {isTarget : Bool} (apart : s.Apart p) (done : enterLabel label isTarget s = .ok t) : t.Apart p := by
  rcases enterLabel_ok.mp done with ⟨stored,found,-,rfl⟩ | ⟨stored,joined,d,found,-,merged,rfl⟩ | ⟨-,rfl⟩
  · obtain ⟨old,size⟩ := apart.joins _ _ found
    exact apart.withFrame old size
  · obtain ⟨old,size⟩ := apart.joins _ _ found
    obtain ⟨gauged,kept,after,same⟩ := old.merge apart.draft apart.frame merged
    exact ((apart.withDraft gauged kept).withFrame after (same.trans size)).withJoin after (same.trans size) label.number
  · cases isTarget with
    | false => exact apart
    | true => exact apart.withJoin apart.frame apart.size label.number

-- Two open registers that are compared have one width, so their groups may be joined.
theorem compared {a b : RegisterState} {ga gb : Group} {left right : Nat} (apart : s.Apart p)
    (first : s.register left = .ok a) (second : s.register right = .ok b) (one : a.group? = some ga) (two : b.group? = some gb)
    (even : a.isWide = b.isWide) : State.Apart p { s with draft := (s.draft.union ga gb).2 } := by
  obtain ⟨fitsLeft,openLeft⟩ := apart.register first
  obtain ⟨fitsRight,openRight⟩ := apart.register second
  obtain ⟨hasLeft,widthLeft⟩ := fitsLeft.group one
  obtain ⟨hasRight,widthRight⟩ := fitsRight.group two
  have same : s.draft.isWide ga = s.draft.isWide gb := widthLeft.trans (even.trans widthRight.symm)
  exact apart.withDraft (apart.draft.union hasLeft hasRight (openLeft ga one) (openRight gb two) same)
    (Draft.retains_union s.draft ga gb)

end State.Apart

theorem apart_elementary (p : Plan) : ElementaryInvariant p (State.Apart p) fun d state => state.Fits d where
  push := fun _ event apart => apart.push event
  pending := fun _ _ apart => ⟨apart.draft,apart.frame,apart.size,apart.joins⟩
  terminal := fun _ _ apart => ⟨apart.draft,apart.frame,apart.size,apart.joins⟩
  site := fun _ g i apart => apart.emitSite g i
  group := fun s wide apart => apart.withDraft (apart.draft.newGroup wide) (Draft.retains_newGroup s.draft wide)
  union := fun _ _ _ _ _ _ _ apart => apart.compared
  resolve := by
    intro s t r state g type apart got group fits done
    obtain ⟨has,width⟩ := (apart.register got).1.group group
    exact apart.resolve has (fun wide => width.trans (fits wide)) done
  write := fun _ _ _ _ apart => apart.setRegister
  arrive := fun _ _ _ _ apart => apart.arrive
  enter := fun _ _ _ _ apart => apart.enter
  typed := fun d type => RegisterState.fits_typed type d
  fresh := by
    intro d wide
    have width : (d.newGroup wide).2.isWide (d.newGroup wide).1 = wide := by simp [Draft.isWide,Draft.newGroup_cell]
    cases wide with
    | false | true => exact ⟨Draft.has_fresh d _,width⟩
  read := fun _ _ _ apart got => (apart.register got).1
  waits := fun d g i _ fits => fits.retains (Draft.retains_pushSite d g i)

theorem entryFrame_apart {shape : MethodShape} {slots : Slots} (done : entryFrame shape slots = .ok f) :
    f.Apart {} ∧ f.size = slots.registers := by
  refine entryFrame_keeps (Q := fun f => f.Apart {} ∧ f.size = slots.registers) done ⟨⟨?_,?_⟩,Frame.ofSize_size _⟩ ?_
  · intro r
    rw [Frame.ofSize_state]
    trivial
  · intro r wide
    rw [Frame.ofSize_state] at wide
    cases wide
  · rintro f r type k - ⟨before,size⟩ put
    exact ⟨before.set (RegisterState.fits_typed type _) put,(Frame.set_state put).1.trans size⟩

theorem prepare_apart {c : Container} {shape : MethodShape} {code : CodeItem} {labels : LabelTable} {start : State}
    (done : prepare c shape code labels = .ok (p,start)) : start.Apart p := by
  simp only [prepare,bind_eq_ok,pure_eq_ok,Prod.mk.injEq] at done
  obtain ⟨slots,-,f,entered,handlers,-,rfl,rfl⟩ := done
  obtain ⟨apart,size⟩ := entryFrame_apart entered
  refine ⟨Draft.gauged_empty,apart,size,?_⟩
  intro n f found
  simp [NatMap.get?] at found

end Restack.Lowering
