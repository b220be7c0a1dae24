import Mathlib
import Restack.Proofs.Draft.Thin
import Restack.Proofs.Lowering.Run
import Restack.Proofs.Lowering.Transfers

namespace Restack.Lowering

open Draft (rank)

-- Lowering without some of the labels. A step that is taken with them is taken without them too, to
-- the same state but for the labels: nothing that lowering looks at in a draft is about labels,
-- except whether the last event is one.

variable {keep : Label → Bool} {b : Bool} {p : Plan} {s t : State} {labels : LabelTable}

-- What `terminal` says without the labels is given, since lowering decides it from the last event.
def State.thin (keep : Label → Bool) (b : Bool) (s : State) : State :=
  { s with draft := s.draft.thin keep, terminal := b }

namespace State

theorem thin_push {event : Event} (kept : event.isKept keep = true) (s : State) :
    State.thin keep b { s with draft := s.draft.push event } = { s.thin keep b with draft := (s.thin keep b).draft.push event } := by
  simp only [thin,Draft.thin_push kept]

theorem thin_emit (s : State) (i : Insn) : (s.emit i).thin keep b = (s.thin keep b).emit i := thin_push (insn_kept keep i) s

theorem thin_emitSite (s : State) (g : Group) (i : Insn) : (s.emitSite g i).thin keep b = (s.thin keep b).emitSite g i := by
  simp only [thin,emitSite,Draft.thin_pushSite]

@[simp] theorem thin_register (s : State) (r : Nat) : (s.thin keep b).register r = s.register r :=
  Frame.get_thin s.frame s.draft r

end State

-- A part of lowering goes the same way without the labels.
theorem thin_elementary (p : Plan) (keep : Label → Bool) (b : Bool) :
    Elementary p (fun s t => t = s.thin keep b) fun _ _ => True where
  register := by
    rintro s _ r rfl
    exact (State.thin_register s r).symm
  waiting := by
    rintro s _ rfl
    rfl
  emit := by
    rintro s _ i rfl
    exact (State.thin_emit s i).symm
  pending := by
    rintro s _ left rfl
    rfl
  resolve := by
    rintro r state g type - - s _ m ⟨rfl,-⟩ done
    simp only [State.resolve,bind_eq_ok,pure_eq_ok] at done ⊢
    obtain ⟨d,resolved,rfl⟩ := done
    exact ⟨_,⟨_,Draft.thin_resolve keep resolved,rfl⟩,rfl⟩
  write := by
    rintro r state s _ m ⟨rfl,-⟩ done
    simp only [State.setRegister,bind_eq_ok,pure_eq_ok] at done ⊢
    obtain ⟨f,written,rfl⟩ := done
    exact ⟨_,⟨f,written,rfl⟩,rfl⟩
  arrive := by
    rintro label arrival s _ m rfl done
    rcases arrive_ok.mp done with ⟨absent,rfl⟩ | ⟨stored,joined,d,found,merged,rfl⟩
    · exact ⟨_,arrive_ok.mpr (.inl ⟨absent,rfl⟩),rfl⟩
    · exact ⟨_,arrive_ok.mpr (.inr ⟨stored,joined,_,found,Frame.merge_thin keep merged,rfl⟩),rfl⟩
  typed := fun _ _ => trivial
  site := by
    rintro s _ g i rfl
    exact (State.thin_emitSite s g i).symm
  group := by
    rintro s _ wide rfl
    have fresh : (s.thin keep b).draft.newGroup wide = ((s.draft.newGroup wide).1,(s.draft.newGroup wide).2.thin keep) :=
      Draft.thin_newGroup s.draft wide
    rw [fresh]
    exact ⟨rfl,rfl⟩
  union := by
    rintro s _ left right x y g h rfl - - - - -
    have joined : (s.thin keep b).draft.union g h = ((s.draft.union g h).1,(s.draft.union g h).2.thin keep) :=
      Draft.thin_union s.draft g h
    rw [joined]
    exact ⟨rfl,rfl⟩
  fresh := fun _ _ => trivial
  read := fun _ _ _ _ _ _ => trivial
  waits := fun _ _ _ _ _ => trivial

-- Lowering an instruction does not look at the table of labels.

theorem loadArguments_labels (registers : List Nat) (missing : Inexpressible) (types : List Descriptor) (next : Nat) :
    loadArguments { p with labels } registers missing types next = loadArguments p registers missing types next := by
  induction types generalizing next with
  | nil => rfl
  | cons type rest ih =>
    funext s
    unfold loadArguments
    simp only [ih]
    rfl

theorem fillElements_labels (element : Descriptor) (kind : ArrayKind) (n : Nat) (registers : List Nat) :
    fillElements { p with labels } element kind n registers = fillElements p element kind n registers := by
  induction registers generalizing n with
  | nil => rfl
  | cons r rest ih =>
    funext s
    unfold fillElements
    simp only [ih]
    rfl

theorem storeData_labels (r : Nat) (array element : Descriptor) (kind : ArrayKind) (n : Nat) (items : List Nat) :
    storeData { p with labels } r array element kind n items = storeData p r array element kind n items := by
  induction items generalizing n with
  | nil => rfl
  | cons bits rest ih =>
    funext s
    unfold storeData
    simp only [ih]
    rfl

theorem step_labels (i : Instruction) : step { p with labels } i = step p i := by
  funext s
  cases i with
  | filledNewArray items type => simp only [step,filledNewArray,fillElements_labels]
  | fillArrayData array data => simp only [step,fillArrayData,storeData_labels]
  | invoke op args method =>
    simp only [step,invoke,loadArguments_labels]
    rfl
  | _ => rfl

-- One item of a body. An instruction and a label that is kept are placed the same way, and a label
-- that is left out leaves no trace.

variable {address : Nat} {opcode : Opcode} {i : Instruction} {label : Label} {isTarget : Bool}

theorem placeInstruction_thin (labels : LabelTable) (keep : Label → Bool) (b : Bool)
    (done : placeInstruction p address opcode i s = .ok t) :
    ∃ b', placeInstruction { p with labels } address opcode i (s.thin keep b) = .ok (t.thin keep b') := by
  simp only [placeInstruction,bind_eq_ok,pure_eq_ok,within_eq_ok,step_labels] at done ⊢
  obtain ⟨m,arrived,u,stepped,rfl⟩ := done
  have steady := (thin_elementary p keep b).steady
  have dropped : (if takesPending i then s.thin keep b else (s.thin keep b).discardPending) =
      (if takesPending i then s else s.discardPending).thin keep b := by
    split
    · rfl
    · exact steady.discardPending rfl
  rw [dropped]
  obtain ⟨_,arrived,rfl⟩ := steady.arriveAll _ .handler _ _ m rfl arrived
  obtain ⟨_,stepped,rfl⟩ := steady.step i _ _ u rfl stepped
  exact ⟨endsTerminal (u.draft.thin keep),_,arrived,_,stepped,rfl⟩

-- What comes from above counts only where others have come before.
theorem enterLabel_thin (flag : s.joins.contains label.number → s.terminal = b)
    (done : enterLabel label isTarget s = .ok t) : enterLabel label isTarget (s.thin keep b) = .ok (t.thin keep b) := by
  rcases enterLabel_ok.mp done with ⟨stored,found,terminal,rfl⟩ | ⟨stored,joined,d,found,falls,merged,rfl⟩ | ⟨absent,rfl⟩
  · obtain rfl : s.terminal = b := flag (by simp [NatMap.contains,found])
    exact enterLabel_ok.mpr (.inl ⟨stored,found,terminal,rfl⟩)
  · obtain rfl : s.terminal = b := flag (by simp [NatMap.contains,found])
    exact enterLabel_ok.mpr (.inr (.inl ⟨stored,joined,_,found,falls,Frame.merge_thin keep merged,rfl⟩))
  · refine enterLabel_ok.mpr (.inr (.inr ⟨absent,?_⟩))
    cases isTarget <;> rfl

theorem isJoin_thin (labels : LabelTable)
    (marks : (labels.entry? address).map LabelEntry.jumpTarget = (p.labels.entry? address).map LabelEntry.jumpTarget) :
    isJoin { p with labels } address label (s.thin keep b) = isJoin p address label s := by
  unfold isJoin
  rw [show (s.thin keep b).joins = s.joins from rfl,marks]

theorem beforeLabel_thin (labels : LabelTable)
    (marks : (labels.entry? address).map LabelEntry.jumpTarget = (p.labels.entry? address).map LabelEntry.jumpTarget) :
    beforeLabel { p with labels } address label (s.thin keep b) = (beforeLabel p address label s).thin keep b := by
  unfold beforeLabel
  rw [isJoin_thin labels marks]
  split
  · exact (thin_elementary p keep b).calm.discardPending rfl
  · rfl

theorem placeLabel_thin (labels : LabelTable) (kept : keep label = true)
    (marks : (labels.entry? address).map LabelEntry.jumpTarget = (p.labels.entry? address).map LabelEntry.jumpTarget)
    (flag : s.joins.contains label.number → s.terminal = b) (done : placeLabel p address label s = .ok t) :
    placeLabel { p with labels } address label (s.thin keep b) = .ok (t.thin keep false) := by
  rw [placeLabel_eq,bind_eq_ok] at done ⊢
  obtain ⟨m,entered,placed⟩ := done
  cases placed
  have event : Event.isKept keep (.label label) = true := kept
  refine ⟨m.thin keep b,?_,rfl⟩
  rw [beforeLabel_thin labels marks,isJoin_thin labels marks]
  rw [← State.thin_push event]
  refine enterLabel_thin ?_ entered
  obtain ⟨joins,terminal⟩ := beforeLabel_same p address label s
  simpa [joins,terminal] using flag

theorem placeLabel_left_out (b : Bool) (gone : keep label = false) (bounded : s.draft.Bounded)
    (plain : isJoin p address label s = false) (uncaught : p.handlers.caught.get? label.number = none) (done : placeLabel p address label s = .ok t) :
    t.thin keep b = s.thin keep b := by
  obtain rfl := placeLabel_plain plain done
  simp only [State.thin,Draft.thin_left_out bounded (show Event.isKept keep (.label label) = false from gone),uncaught,
    Option.none_or]

end Restack.Lowering
