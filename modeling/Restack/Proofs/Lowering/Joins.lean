import Mathlib
import Restack.Proofs.Lowering.Blocks

namespace Restack.Lowering

-- Jumps leave their frames at labels: whatever is stored for a label from then on
-- promises no more than the frame at the jump.

variable {P : Descriptor → Prop} {p : Plan} {s t m : State} {f : Frame} {label other : Label}
  {labels : List Label} {arrival : Arrival} {block : List Insn} {item : BodyItem} {i : Instruction} {result : Descriptor}
  {left after : Option Descriptor} {parts : List Part}

structure Guarded (P : Descriptor → Prop) (label : Label) (f : Frame) (s : State) : Prop where
  valid : f.Valid P s.draft
  stored : ∃ g, s.joins.get? label.number = some g ∧ Frame.Below s.draft g f

theorem Guarded.withDraft {d : Draft} (guarded : Guarded P label f s) (valid : s.Valid P p) (grown : s.draft.Extends d) :
    Guarded P label f { s with draft := d } := by
  obtain ⟨g,found,below⟩ := guarded.stored
  exact ⟨guarded.valid.extends grown,g,found,below.extends grown (valid.joins _ _ found).1 guarded.valid⟩

theorem Guarded.arrive (int : P .int) (guarded : Guarded P label f s) (valid : s.Valid P p)
    (done : s.arrive other arrival = .ok t) : Guarded P label f t := by
  obtain ⟨joined,d,rfl,arrived⟩ := arrive_arrived int valid done
  have grown := arrived.settles.extends valid.draft
  obtain ⟨g,found,below⟩ := guarded.stored
  have later := below.extends grown (valid.joins _ _ found).1 guarded.valid
  refine ⟨guarded.valid.extends grown,?_⟩
  dsimp only
  rw [NatMap.get?_insert]
  split
  · rename_i same
    rw [same] at found
    exact ⟨joined,rfl,(arrived.before g found).trans later⟩
  · exact ⟨g,found,later⟩

theorem Guarded.evolves (int : P .int) (guarded : Guarded P label f s) (valid : s.Valid P p) (path : Evolves P s block t) :
    Guarded P label f t := by
  induction path with
  | refl => exact guarded
  | emit i prior ih => exact ih.withDraft (prior.valid int valid) (Draft.extends_push _ _)
  | @site m block g i prior _ _ _ ih =>
    have kept := ih.withDraft (prior.valid int valid) (Draft.extends_pushSite _ g i)
    exact ⟨kept.valid,kept.stored⟩
  | group wide prior ih =>
    have before := prior.valid int valid
    exact ih.withDraft before (Draft.extends_newGroup before.draft.toRooted wide)
  | settle prior settled ih =>
    have before := prior.valid int valid
    exact ih.withDraft before (settled.extends before.draft)
  | write prior _ done ih =>
    obtain ⟨k,-,rfl⟩ := setRegister_frame done
    exact ⟨ih.valid,ih.stored⟩
  | arrive prior done ih => exact ih.arrive int (prior.valid int valid) done
  | hold prior _ ih => exact ⟨ih.valid,ih.stored⟩

theorem Guarded.placed (guarded : Guarded P label f s) (valid : s.Valid P p) (placed : LabelPlaced P p other s t) :
    Guarded P label f t := by
  have grown := (Draft.extends_push s.draft (.label other)).trans (placed.settles.extends (sound_push valid.draft _))
  obtain ⟨g,found,below⟩ := guarded.stored
  have later := below.extends grown (valid.joins _ _ found).1 guarded.valid
  refine ⟨guarded.valid.extends grown,?_⟩
  by_cases same : label.number = other.number
  · rw [same] at found
    obtain ⟨k,stays,lower,-⟩ := placed.stored g found
    rw [same]
    exact ⟨k,stays,lower.trans later⟩
  · rw [placed.others _ same]
    exact ⟨g,found,later⟩

theorem Guarded.place (typed : p.Typed P) (here : ItemTyped P p item) (guarded : Guarded P label f s) (valid : s.Valid P p)
    (done : place p s item = .ok t) : Guarded P label f t := by
  cases item with
  | label address other =>
    have dropped := guarded.evolves typed.closed.int valid (beforeLabel_path p address other s)
    exact dropped.placed (beforeLabel_valid typed.closed valid) (placeLabel_spec typed.closed valid done)
  | instruction address opcode i =>
    obtain ⟨m,parts,block,u,placed⟩ := placeInstruction_spec typed.closed valid here done
    have kept := guarded.evolves typed.closed.int valid placed.path
    obtain rfl := placed.result
    exact ⟨kept.valid,kept.stored⟩

-- A jump arrives at its target with the frame it finds.

theorem arrive_guards (int : P .int) (valid : s.Valid P p) (done : s.arrive label arrival = .ok t) :
    Guarded P label s.frame t := by
  obtain ⟨joined,d,rfl,arrived⟩ := arrive_arrived int valid done
  have grown := arrived.settles.extends valid.draft
  exact ⟨valid.frame.extends grown,joined,by simp [NatMap.get?_insert],arrived.here⟩

theorem arriveAll_guards (int : P .int) (valid : s.Valid P p) (done : s.arriveAll labels arrival = .ok t)
    (member : label ∈ labels) : Guarded P label s.frame t := by
  induction labels generalizing s with
  | nil => cases member
  | cons first rest ih =>
    simp only [State.arriveAll,List.foldlM_cons,bind_eq_ok] at done
    obtain ⟨m,here,there⟩ := done
    have same := (arrive_same here).2
    have next := arrive_valid int valid here
    rcases List.mem_cons.mp member with rfl | later
    · refine foldlM_keeps (P := fun u => u.Valid P p ∧ Guarded P label s.frame u) ?_ ⟨next,arrive_guards int valid here⟩ there |>.2
      rintro u other v - ⟨known,guarded⟩ arrived
      exact ⟨arrive_valid int known arrived,guarded.arrive int known arrived⟩
    · rw [← same]
      exact ih next there later

-- A jump comes last in the code of its instruction. What it compares is pushed before, and
-- the frame stays as it was.

theorem template_leads (template : Template result i left parts after) (target : label ∈ i.targets) :
    ∃ front insn, parts = front ++ [.code insn] ∧ label ∈ insn.targets := by
  cases template with
  | goto => exact ⟨[],_,rfl,target⟩
  | @packedSwitch value firstKey targets next =>
    exact ⟨[.read value .int],_,rfl,((switchInsn_targets firstKey targets next).1 label).mp target⟩
  | @sparseSwitch value => exact ⟨[.read value .int],_,rfl,by simpa [Insn.targets,Instruction.targets,or_comm] using target⟩
  | test | testReference | testOpen => exact ⟨[_,_],_,rfl,target⟩
  | testZero | testNull | testZeroOpen => exact ⟨[_],_,rfl,target⟩
  | _ => cases target

theorem Traced.guards (int : P .int) (valid : s.Valid P p) (traced : Traced P p s block t) {insn : Insn}
    (last : block.getLast? = some insn) (target : label ∈ insn.targets) (reads : ∀ i ∈ block.dropLast, i.isStore = false) :
    Guarded P label s.frame t := by
  induction traced with
  | refl => cases last
  | quiet prior path _ _ ih => exact (ih last reads).evolves int (prior.path.valid int valid) path
  | code prior same arrived path _ _ _ _ =>
    rw [List.getLast?_concat] at last
    rw [List.dropLast_concat] at reads
    cases last
    have known := prior.path.valid int valid
    have guarded := arriveAll_guards int known arrived ((same label).mpr target)
    rw [prior.still reads] at guarded
    exact guarded.evolves int ((evolves_arriveAll arrived).valid int known) path
  | load | look | store =>
    rw [List.getLast?_concat] at last
    cases last
    cases target

theorem Lowered.guards (int : P .int) (valid : s.Valid P p) (lowered : Lowered P p i s parts block t)
    (target : label ∈ i.targets) : Guarded P label s.frame t := by
  obtain ⟨front,insn,split,leads⟩ := template_leads lowered.template target
  have expands := lowered.expands
  rw [split] at expands
  obtain ⟨here,rest,whole,-,last⟩ := expands.split
  obtain _ | ⟨⟨⟩,⟨⟩⟩ := last
  refine lowered.trace.guards int valid ?_ leads lowered.stores
  rw [whole]
  exact List.getLast?_concat

end Restack.Lowering
