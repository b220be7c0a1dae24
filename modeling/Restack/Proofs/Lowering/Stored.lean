import Mathlib
import Restack.Proofs.Lowering.Blocks
import Restack.Proofs.Lowering.Joins

namespace Restack.Lowering

open Draft (Extends)

-- What is stored for a label after it was placed. A branch that comes later changes what
-- is said of a register only if it has no value there itself.

variable {P : Descriptor → Prop} {p : Plan} {s t m : State} {g : Frame} {r : Nat} {label other : Label} {labels : List Label}
  {arrival : Arrival} {log : List Insn} {address above : Nat} {opcode : Opcode} {i : Instruction}

structure Keeps (P : Descriptor → Prop) (label : Label) (g : Frame) (r : Nat) (s : State) : Prop where
  valid : (g.state r).Valid P s.draft
  stored : ∃ f, s.joins.get? label.number = some f ∧ (f.state r).outlook s.draft = (g.state r).outlook s.draft

theorem outlook_unknown {a : RegisterState} {d : Draft} : a.outlook d = .nothing ↔ a = .unknown := by
  cases a with
  | unknown => simp [RegisterState.outlook]
  | typed type => simp [RegisterState.outlook]
  | open32 g =>
    simp only [RegisterState.outlook,reduceCtorEq,iff_false]
    split <;> simp
  | open64 g =>
    simp only [RegisterState.outlook,reduceCtorEq,iff_false]
    split <;> simp

theorem Keeps.extends (keeps : Keeps P label g r s) (valid : s.Valid P p) (grown : Extends s.draft t.draft)
    (joins : t.joins.get? label.number = s.joins.get? label.number) : Keeps P label g r t := by
  obtain ⟨f,found,same⟩ := keeps.stored
  exact ⟨keeps.valid.extends grown,f,joins.trans found,
    RegisterState.outlook_extends grown ((valid.joins _ _ found).1 r) keeps.valid same⟩

theorem Keeps.elsewhere (int : P .int) (keeps : Keeps P label g r s) (valid : s.Valid P p) (apart : label.number ≠ other.number)
    (done : s.arrive other arrival = .ok t) : Keeps P label g r t := by
  obtain ⟨joined,d,rfl,arrived⟩ := arrive_arrived int valid done
  refine keeps.extends valid (arrived.settles.extends valid.draft) ?_
  simp [NatMap.get?_insert,apart]

theorem arrive_lost {joined : Frame} (done : s.arrive label .branch = .ok t) (now : t.joins.get? label.number = some joined)
    (lost : joined.state r = .unknown) :
    s.frame.state r = .unknown ∨ ∃ f, s.joins.get? label.number = some f ∧ f.state r = .unknown := by
  rcases arrive_ok.mp done with ⟨-,rfl⟩ | ⟨f,merged,d,found,merge,rfl⟩
  · simp only [NatMap.get?_insert,if_true,Option.some.injEq] at now
    subst now
    exact .inl lost
  · simp only [NatMap.get?_insert,if_true,Option.some.injEq] at now
    subst now
    exact (Frame.merge_lost merge lost).symm.imp id fun gone => ⟨f,found,gone⟩

theorem Keeps.here (int : P .int) (keeps : Keeps P label g r s) (valid : s.Valid P p) (told : g.state r ≠ .unknown)
    (known : s.frame.state r ≠ .unknown) (done : s.arrive label .branch = .ok t) : Keeps P label g r t := by
  obtain ⟨f,found,same⟩ := keeps.stored
  have lost : ∀ joined, t.joins.get? label.number = some joined → joined.state r = .unknown → _ :=
    fun joined => arrive_lost done
  obtain ⟨joined,d,rfl,arrived⟩ := arrive_arrived int valid done
  have grown := arrived.settles.extends valid.draft
  have later := RegisterState.outlook_extends grown ((valid.joins _ _ found).1 r) keeps.valid same
  refine ⟨keeps.valid.extends grown,joined,by simp [NatMap.get?_insert],?_⟩
  rcases arrived.before f found r with gone | equal
  · rcases lost joined (by simp [NatMap.get?_insert]) gone with none | ⟨h,again,none⟩
    · exact absurd none known
    · rw [found] at again
      cases again
      rw [none] at same
      exact absurd (outlook_unknown.mp same.symm) told
  · exact equal.trans later

theorem Keeps.arriveAll (int : P .int) (keeps : Keeps P label g r s) (valid : s.Valid P p) (told : g.state r ≠ .unknown)
    (known : label ∈ labels → arrival = .branch ∧ s.frame.state r ≠ .unknown) (done : s.arriveAll labels arrival = .ok t) :
    Keeps P label g r t := by
  unfold State.arriveAll at done
  refine (foldlM_keeps (P := fun m => m.Valid P p ∧ m.frame = s.frame ∧ Keeps P label g r m) ?_ ⟨valid,rfl,keeps⟩ done).2.2
  rintro m other u member ⟨valid,frame,keeps⟩ arrived
  refine ⟨arrive_valid int valid arrived,(arrive_same arrived).2.trans frame,?_⟩
  by_cases same : label = other
  · subst same
    obtain ⟨rfl,value⟩ := known member
    exact keeps.here int valid told (by rwa [frame]) arrived
  · refine keeps.elsewhere int valid ?_ arrived
    intro numbers
    cases label
    cases other
    exact same (congrArg Label.mk numbers)

theorem Keeps.traced (int : P .int) (keeps : Keeps P label g r s) (valid : s.Valid P p) (told : g.state r ≠ .unknown)
    (reads : ∀ i ∈ log.dropLast, i.isStore = false)
    (known : ∀ i ∈ log, label ∈ i.targets → s.frame.state r ≠ .unknown) (traced : Traced P p s log t) : Keeps P label g r t := by
  have earlier : ∀ {log : List Insn} {i : Insn}, (∀ j ∈ (log ++ [i]).dropLast, j.isStore = false) →
      (∀ j ∈ log.dropLast, j.isStore = false) ∧ ∀ j ∈ log, j.isStore = false := by
    intro log i reads
    rw [List.dropLast_concat] at reads
    exact ⟨fun j member => reads j (List.mem_of_mem_dropLast member),reads⟩
  induction traced with
  | refl => exact keeps
  | quiet prior path _ joins ih =>
    have ready := prior.path.valid int valid
    exact (ih reads known).extends ready (path.extends int ready) (by rw [joins])
  | @code m n t log i labels prior same arrived path frame joins plain ih =>
    have ready := prior.path.valid int valid
    have before := ih (earlier reads).1 fun j member => known j (List.mem_append_left _ member)
    have landed := before.arriveAll int ready told (fun member => ⟨rfl,by
      rw [prior.still (earlier reads).2]
      exact known i (List.mem_append_right _ List.mem_cons_self) ((same label).mp member)⟩) arrived
    have after := (evolves_arriveAll (P := P) arrived).valid int ready
    exact landed.extends after (path.extends int after) (by rw [joins])
  | load prior placed outlook ih =>
    have before := ih (earlier reads).1 fun j member => known j (List.mem_append_left _ member)
    exact before.extends (prior.path.valid int valid) (Draft.extends_push _ _) rfl
  | look prior placed group waits ih =>
    have before := ih (earlier reads).1 fun j member => known j (List.mem_append_left _ member)
    exact before.extends (prior.path.valid int valid) (Draft.extends_pushSite _ _ _) rfl
  | store prior placed path written joins ih =>
    have ready := prior.path.valid int valid
    have before := ih (earlier reads).1 fun j member => known j (List.mem_append_left _ member)
    exact before.extends ready (path.extends int ready) (by rw [joins])

-- One more item. Another label leaves what is stored for this one, and so does an
-- instruction that this one does not hear.

theorem Keeps.pastLabel (typed : p.Typed P) (keeps : Keeps P label g r s) (valid : s.Valid P p)
    (apart : label.number ≠ other.number) (done : placeLabel p above other s = .ok t) : Keeps P label g r t := by
  have placed := placeLabel_spec typed.closed valid done
  have given : ItemTyped P p (.label above other) := trivial
  refine keeps.extends valid (place_extends typed given valid done) ?_
  rw [placed.others _ apart,(beforeLabel_same p above other s).1]

theorem Keeps.pastInstruction (typed : p.Typed P) (keeps : Keeps P label g r s) (valid : s.Valid P p) (told : g.state r ≠ .unknown)
    (given : ∀ type ∈ givenTypes p.shape.signature.result i, P type) (unheard : label ∉ p.handlers.covering address)
    (known : label ∈ i.targets → s.frame.state r ≠ .unknown) (done : placeInstruction p address opcode i s = .ok t) :
    Keeps P label g r t := by
  obtain ⟨m,parts,block,u,placed⟩ := placeInstruction_spec typed.closed valid given done
  have int := typed.closed.int
  have dropped : Keeps P label g r (if takesPending i then s else s.discardPending) ∧
      State.Valid P p (if takesPending i then s else s.discardPending) := by
    split
    · exact ⟨keeps,valid⟩
    · obtain ⟨path,-,-,joins,-⟩ := discardPending_spec (P := P) s
      exact ⟨keeps.extends valid (path.extends int valid) (by rw [joins]),path.valid int valid⟩
  have heard := dropped.1.arriveAll int dropped.2 told (fun member => absurd member unheard) placed.heard
  have ready := placed.cleared.valid int valid
  have after := heard.traced int ready told placed.lowered.stores
    (fun insn member target => by rw [placed.frame]; exact known (placed.lowered.targets member target)) placed.lowered.trace
  obtain rfl := placed.result
  exact ⟨after.valid,after.stored⟩

theorem Keeps.agrees {f g : Frame} (keeps : Keeps P label g r s) (guarded : Guarded P label f s) (told : g.state r ≠ .unknown) :
    (f.state r).outlook s.draft = (g.state r).outlook s.draft := by
  obtain ⟨stored,found,same⟩ := keeps.stored
  obtain ⟨_,again,below⟩ := guarded.stored
  rw [found] at again
  cases again
  rcases below r with none | equal
  · rw [none] at same
    exact absurd (outlook_unknown.mp same.symm) told
  · exact equal.symm.trans same

-- A label that branches lead to keeps the frame that it leaves.

theorem enterLabel_joins (done : enterLabel label true s = .ok t) : t.joins.get? label.number = some t.frame := by
  rcases enterLabel_ok.mp done with ⟨stored,found,-,rfl⟩ | ⟨stored,joined,d,-,-,-,rfl⟩ | ⟨-,rfl⟩
  · exact found
  · simp [NatMap.get?_insert]
  · simp [NatMap.get?_insert]

theorem placeLabel_joins (join : isJoin p address label s = true) (done : placeLabel p address label s = .ok t) :
    t.joins.get? label.number = some t.frame := by
  simp only [placeLabel,bind_eq_ok,pure_eq_ok] at done
  obtain ⟨m,entered,rfl⟩ := done
  have target : (((p.labels.entry? address).map LabelEntry.jumpTarget).getD false || s.joins.contains label.number) = true := join
  rw [target] at entered
  exact enterLabel_joins (t := m) entered

end Restack.Lowering
