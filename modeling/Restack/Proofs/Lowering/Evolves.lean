import Mathlib
import Restack.Proofs.NatMap
import Restack.Proofs.Draft.Outline
import Restack.Proofs.Frame.Merge
import Restack.Proofs.Lowering.Invariant

namespace Restack.Lowering

open Draft (Settles Extends Sound)

-- All that lowering an instruction can do to the state, as a sequence of single
-- changes, with the instructions emitted on the way. Every invariant of lowering
-- is proved once for each change here; the functions that lower instructions are
-- only shown to be such sequences.

variable {P : Descriptor → Prop} {p : Plan} {s t m : State} {block left right : List Insn} {label : Label}
  {arrival : Arrival} {r : Nat} {value : RegisterState}

structure State.Valid (P : Descriptor → Prop) (p : Plan) (s : State) : Prop where
  draft : s.draft.Sound P
  frame : s.frame.Valid P s.draft
  size : s.frame.size = p.slots.registers
  joins : ∀ n f, s.joins.get? n = some f → f.Valid P s.draft ∧ f.size = p.slots.registers
  pending : ∀ type, s.pending = some type → P type

theorem State.Valid.withDraft (valid : s.Valid P p) (sound : d.Sound P) (grown : Extends s.draft d) :
    State.Valid P p { s with draft := d } where
  draft := sound
  frame := valid.frame.extends grown
  size := valid.size
  joins := fun n f found => ⟨(valid.joins n f found).1.extends grown,(valid.joins n f found).2⟩
  pending := valid.pending

theorem sound_push {d : Draft} (sound : d.Sound P) (event : Event) : (d.push event).Sound P :=
  ⟨Draft.push_rooted sound.toRooted,sound.types⟩

theorem sound_pushSite {d : Draft} (sound : d.Sound P) (g : Group) (i : Insn) : (d.pushSite g i).Sound P := by
  refine sound_push ⟨Draft.addSite_rooted sound.toRooted,?_⟩ _
  intro h type has known
  exact sound.types h type ((Draft.addSite_has d g h _).mp has) (by simpa using known)

theorem sound_newGroup {d : Draft} (sound : d.Sound P) (wide : Bool) : (d.newGroup wide).2.Sound P := by
  refine ⟨Draft.newGroup_rooted sound.toRooted,?_⟩
  intro g type has known
  by_cases old : d.Has g
  · rw [Draft.newGroup_resolution sound.toRooted old] at known
    exact sound.types g type old known
  · have last : g = (d.newGroup wide).1 := by
      obtain ⟨id⟩ := g
      simp only [Draft.Has,Draft.newGroup_size] at has old
      simp only [Draft.newGroup_id,Group.mk.injEq]
      omega
    rw [last,Draft.newGroup_open] at known
    cases known

-- Arriving at a label leaves there what all who came promise.
structure Arrived (P : Descriptor → Prop) (s : State) (label : Label) (joined : Frame) (d : Draft) : Prop where
  settles : Settles P s.draft d
  valid : joined.Valid P d
  size : joined.size = s.frame.size
  here : Frame.Below d joined s.frame
  before : ∀ stored, s.joins.get? label.number = some stored → Frame.Below d joined stored

theorem arrive_arrived (int : P .int) (valid : s.Valid P p) (done : s.arrive label arrival = .ok t) :
    ∃ joined d, t = { s with draft := d, joins := NatMap.insert label.number joined s.joins } ∧
      Arrived P s label joined d := by
  rcases arrive_ok.mp done with ⟨absent,rfl⟩ | ⟨stored,joined,d,found,merged,rfl⟩
  · refine ⟨s.frame,s.draft,rfl,.refl,valid.frame,rfl,.refl _ _,?_⟩
    intro stored found
    rw [absent] at found
    cases found
  · obtain ⟨old,oldSize⟩ := valid.joins _ _ found
    have result := Frame.merge_merged valid.draft int old valid.frame merged
    refine ⟨joined,d,rfl,result.settles,result.valid,?_,result.right,?_⟩
    · rw [result.size,oldSize,valid.size]
    · intro other same
      rw [found] at same
      cases same
      exact result.left

inductive Evolves (P : Descriptor → Prop) : State → List Insn → State → Prop where
  | refl {s : State} : Evolves P s [] s
  | emit {s m : State} {block : List Insn} (i : Insn) : Evolves P s block m → Evolves P s (block ++ [i]) (m.emit i)
  -- A placeholder comes while its group is open. A jump may come too late.
  | site {s m : State} {block : List Insn} {g : Group} {i : Insn} : Evolves P s block m → m.draft.Has g →
      i.untyped = i → m.draft.resolution? g = none ∨ (∃ condition target, i = .jump condition target) →
      Evolves P s (block ++ [i]) (m.emitSite g i)
  | group {s m : State} {block : List Insn} (wide : Bool) : Evolves P s block m →
      Evolves P s block { m with draft := (m.draft.newGroup wide).2 }
  | settle {s m : State} {block : List Insn} {d : Draft} : Evolves P s block m → Settles P m.draft d →
      Evolves P s block { m with draft := d }
  | write {s m t : State} {block : List Insn} {r : Nat} {value : RegisterState} : Evolves P s block m →
      value.Valid P m.draft → m.setRegister r value = .ok t → Evolves P s block t
  | arrive {s m t : State} {block : List Insn} {label : Label} {arrival : Arrival} : Evolves P s block m →
      m.arrive label arrival = .ok t → Evolves P s block t
  | hold {s m : State} {block : List Insn} {pending : Option Descriptor} : Evolves P s block m →
      (∀ type, pending = some type → P type) → Evolves P s block { m with pending }

theorem Evolves.trans (first : Evolves P s left m) (second : Evolves P m right t) : Evolves P s (left ++ right) t := by
  induction second with
  | refl => simpa using first
  | emit i _ ih => simpa using Evolves.emit i ih
  | site _ has form timely ih => simpa using Evolves.site ih has form timely
  | group wide _ ih => exact .group wide ih
  | settle _ settled ih => exact .settle ih settled
  | write _ known done ih => exact .write ih known done
  | arrive _ done ih => exact .arrive ih done
  | hold _ known ih => exact .hold ih known

theorem setRegister_frame (done : s.setRegister r value = .ok t) :
    ∃ f, s.frame.set r value = .ok f ∧ t = { s with frame := f } := by
  simp only [State.setRegister,bind_eq_ok,pure_eq_ok] at done
  obtain ⟨f,written,rfl⟩ := done
  exact ⟨f,written,rfl⟩

theorem setRegister_valid (valid : s.Valid P p) (known : value.Valid P s.draft)
    (done : s.setRegister r value = .ok t) : t.Valid P p := by
  obtain ⟨f,written,rfl⟩ := setRegister_frame done
  obtain ⟨size,-,-,states⟩ := Frame.set_state written
  refine ⟨valid.draft,?_,size.trans valid.size,valid.joins,valid.pending⟩
  intro q
  dsimp only
  rw [states]
  split
  · exact known
  · split
    · trivial
    · split
      · trivial
      · exact valid.frame q

theorem arrive_valid (int : P .int) (valid : s.Valid P p) (done : s.arrive label arrival = .ok t) : t.Valid P p := by
  obtain ⟨joined,d,rfl,arrived⟩ := arrive_arrived int valid done
  have grown := arrived.settles.extends valid.draft
  have base := valid.withDraft (arrived.settles.sound valid.draft) grown
  refine ⟨base.draft,base.frame,base.size,?_,base.pending⟩
  intro n f found
  rw [NatMap.get?_insert] at found
  split at found
  · cases found
    exact ⟨arrived.valid,arrived.size.trans valid.size⟩
  · exact base.joins n f found

theorem Evolves.valid (int : P .int) (valid : s.Valid P p) (path : Evolves P s block t) : t.Valid P p := by
  induction path with
  | refl => exact valid
  | emit i _ ih => exact ih.withDraft (sound_push ih.draft _) (Draft.extends_push _ _)
  | @site m block g i _ has form timely ih =>
    have base := ih.withDraft (sound_pushSite ih.draft g i) (Draft.extends_pushSite _ g i)
    exact ⟨base.draft,base.frame,base.size,base.joins,base.pending⟩
  | group wide _ ih => exact ih.withDraft (sound_newGroup ih.draft wide) (Draft.extends_newGroup ih.draft.toRooted wide)
  | settle _ settled ih => exact ih.withDraft (settled.sound ih.draft) (settled.extends ih.draft)
  | write _ known done ih => exact setRegister_valid ih known done
  | arrive _ done ih => exact arrive_valid int ih done
  | hold _ known ih => exact ⟨ih.draft,ih.frame,ih.size,ih.joins,known⟩

theorem Evolves.extends (int : P .int) (valid : s.Valid P p) (path : Evolves P s block t) :
    Extends s.draft t.draft := by
  induction path with
  | refl => exact .refl _
  | emit i _ ih => exact ih.trans (Draft.extends_push _ _)
  | site _ _ _ _ ih => exact ih.trans (Draft.extends_pushSite _ _ _)
  | group wide prior ih => exact ih.trans (Draft.extends_newGroup (prior.valid int valid).draft.toRooted wide)
  | settle prior settled ih => exact ih.trans (settled.extends (prior.valid int valid).draft)
  | write _ _ done ih =>
    obtain ⟨f,-,rfl⟩ := setRegister_frame done
    exact ih
  | arrive prior done ih =>
    obtain ⟨joined,d,rfl,arrived⟩ := arrive_arrived int (prior.valid int valid) done
    exact ih.trans (arrived.settles.extends (prior.valid int valid).draft)
  | hold _ _ ih => exact ih

theorem Evolves.outline (int : P .int) (valid : s.Valid P p) (path : Evolves P s block t) :
    t.draft.outline = s.draft.outline ++ block.map fun i => .insn i.untyped := by
  induction path with
  | refl => simp
  | emit i _ ih => simp [State.emit,ih,Event.untyped]
  | site _ _ _ _ ih => simp [State.emitSite,ih]
  | group wide _ ih => exact ih
  | settle _ settled ih => exact settled.outline.trans ih
  | write _ _ done ih =>
    obtain ⟨f,-,rfl⟩ := setRegister_frame done
    exact ih
  | arrive prior done ih =>
    obtain ⟨joined,d,rfl,arrived⟩ := arrive_arrived int (prior.valid int valid) done
    exact arrived.settles.outline.trans ih
  | hold _ _ ih => exact ih

end Restack.Lowering
