import Mathlib
import Restack.Proofs.Lowering.Recorded
import Restack.Proofs.Lowering.Trail

namespace Restack

namespace Lowering

open Draft (Settles Extends)

-- Loads read registers as the frame before their instruction knows them. A load has the
-- kind of its register when it is emitted, or it is a placeholder of the group that the
-- register has, and gets the kind with the type of the group.

variable {P : Descriptor → Prop} {p : Plan} {s t m : State} {d e : Draft} {record : List Placeholder} {f : Frame}
  {r slot n : Nat} {kind : Kind} {g : Group} {log block : List Insn} {item : BodyItem} {i : Insn}

inductive LoadsBy (f : Frame) (r slot n : Nat) (d : Draft) (record : List Placeholder) : Prop where
  | told {kind : Kind} : d.events[n]? = some (.insn (.load kind slot)) → (∀ ph ∈ record, ph.position ≠ n) →
      (f.state r).outlook d = .kind (some kind) → LoadsBy f r slot n d record
  | waits {kind : Kind} {ph : Placeholder} : ph ∈ record → ph.position = n → ph.insn = .load kind slot →
      (f.state r).group? = some ph.group → LoadsBy f r slot n d record

def Loads (f : Frame) (r slot n : Nat) (d : Draft) : Prop := ∃ record, Patched d record ∧ LoadsBy f r slot n d record

theorem Patched.elsewhere (patched : Patched d record) (path : Settles P d e) (other : ∀ ph ∈ record, ph.position ≠ n) :
    e.events[n]? = d.events[n]? := by
  induction path with
  | refl => rfl
  | unite _ _ _ _ _ ih => rw [Draft.union_events,ih]
  | @resolve m e g type prior has isOpen typed done ih =>
    rw [Draft.resolve_elsewhere isOpen done,ih]
    intro member
    obtain ⟨ph,logged,place,-⟩ := ((patched.settles prior).sites g has isOpen n).mp member
    exact other ph logged place

theorem LoadsBy.extends (loads : LoadsBy f r slot n d record) (valid : (f.state r).Valid P d) (grown : Extends d e)
    (event : (∀ ph ∈ record, ph.position ≠ n) → n < d.events.size → e.events[n]? = d.events[n]?) : LoadsBy f r slot n e record := by
  cases loads with
  | told here apart known =>
    have inside := (Array.getElem?_eq_some_iff.mp here).1
    exact .told ((event apart inside).trans here) apart (RegisterState.outlook_told grown valid known)
  | waits member place form group => exact .waits member place form group

theorem LoadsBy.site (loads : LoadsBy f r slot n d record) (valid : (f.state r).Valid P d) (g : Group) (i : Insn) :
    LoadsBy f r slot n (d.pushSite g i) (record ++ [⟨d.events.size,g,i,d.resolution? g⟩]) := by
  cases loads with
  | told here apart known =>
    have inside := (Array.getElem?_eq_some_iff.mp here).1
    refine .told ?_ ?_ (RegisterState.outlook_told (Draft.extends_pushSite d g i) valid known)
    · simpa [Draft.pushSite,Array.getElem?_push,Nat.ne_of_lt inside] using here
    · intro ph member
      rcases List.mem_append.mp member with old | new
      · exact apart ph old
      · obtain rfl := List.mem_singleton.mp new
        exact Nat.ne_of_gt inside
  | waits member place form group => exact .waits (List.mem_append_left _ member) place form group

theorem Loads.push (loads : Loads f r slot n d) (valid : (f.state r).Valid P d) (event : Event) :
    Loads f r slot n (d.push event) := by
  obtain ⟨record,patched,loads⟩ := loads
  refine ⟨record,patched.push event,loads.extends valid (Draft.extends_push d event) ?_⟩
  intro _ inside
  rw [Draft.push_events,Array.getElem?_push,if_neg (Nat.ne_of_lt inside)]

theorem Loads.settles (loads : Loads f r slot n d) (sound : d.Sound P) (valid : (f.state r).Valid P d) (path : Settles P d e) :
    Loads f r slot n e := by
  obtain ⟨record,patched,loads⟩ := loads
  exact ⟨record,patched.settles path,loads.extends valid (path.extends sound) fun apart _ => patched.elsewhere path apart⟩

theorem Loads.evolves (int : P .int) (valid : s.Valid P p) (known : (f.state r).Valid P s.draft)
    (loads : Loads f r slot n s.draft) (path : Evolves P s block t) : Loads f r slot n t.draft := by
  have grown : ∀ {block m}, Evolves P s block m → (f.state r).Valid P m.draft :=
    fun prior => known.extends (prior.extends int valid)
  induction path with
  | refl => exact loads
  | emit i prior ih => exact ih.push (grown prior) _
  | @site m block g i prior has form timely ih =>
    obtain ⟨record,patched,before⟩ := ih
    exact ⟨_,patched.site has form timely,before.site (grown prior) g i⟩
  | group wide prior ih =>
    obtain ⟨record,patched,before⟩ := ih
    have wider := Draft.extends_newGroup (prior.valid int valid).draft.toRooted wide
    exact ⟨record,patched.newGroup wide,before.extends (grown prior) wider fun _ _ => rfl⟩
  | settle prior settled ih => exact ih.settles (prior.valid int valid).draft (grown prior) settled
  | write _ _ done ih =>
    obtain ⟨f,-,rfl⟩ := setRegister_frame done
    exact ih
  | arrive prior done ih =>
    have before := prior.valid int valid
    obtain ⟨joined,d,rfl,arrived⟩ := arrive_arrived int before done
    exact ih.settles before.draft (grown prior) arrived.settles
  | hold _ _ ih => exact ih

theorem Loads.place (typed : p.Typed P) (here : ItemTyped P p item) (valid : s.Valid P p)
    (known : (f.state r).Valid P s.draft) (loads : Loads f r slot n s.draft) (done : place p s item = .ok t) :
    Loads f r slot n t.draft := by
  cases item with
  | label address label =>
    have placed := placeLabel_spec typed.closed valid done
    have path := beforeLabel_path (P := P) p address label s
    have ready := path.valid typed.closed.int valid
    have still := known.extends (path.extends typed.closed.int valid)
    exact ((loads.evolves typed.closed.int valid known path).push still _).settles (sound_push ready.draft _)
      (still.extends (Draft.extends_push _ _)) placed.settles
  | instruction address opcode i =>
    obtain ⟨m,parts,block,u,placed⟩ := placeInstruction_spec typed.closed valid here done
    have after := loads.evolves typed.closed.int valid known placed.path
    obtain rfl := placed.result
    exact after

theorem Loads.shown (resolved : ∀ g, d.Has g → ∃ type, d.resolution? g = some type) (loads : Loads f r slot n d)
    (event : d.events[n]? = some (.insn (.load kind slot))) : (f.state r).outlook d = .kind (some kind) := by
  obtain ⟨record,patched,loads⟩ := loads
  cases loads with
  | told here _ known =>
    rw [event] at here
    cases here
    exact known
  | @waits old ph member place form group =>
    have formed := patched.formed ph member
    obtain ⟨type,told⟩ := resolved ph.group formed.has
    have early : ph.known = none := by
      by_contra late
      obtain ⟨condition,target,jump⟩ := formed.early late
      rw [form] at jump
      cases jump
    obtain ⟨final,retyped,there⟩ := formed.retyped type told early
    rw [place,event] at there
    cases there
    rw [form] at retyped
    rw [RegisterState.outlook_resolved group told]
    unfold Insn.retype at retyped
    split at retyped
    · simp at retyped
    · rename_i known wanted
      obtain ⟨-,same⟩ := Insn.retypeSlot_eq retyped
      cases same
      rw [wanted]

-- The loads and the store of a block. A block stores at its end if at all, so that its
-- loads all find the frame before it.

theorem Evolves.size (int : P .int) (valid : s.Valid P p) (path : Evolves P s block t) :
    t.draft.events.size = s.draft.events.size + block.length := by
  rw [← Draft.outline_length,path.outline int valid]
  simp

theorem Traced.still (traced : Traced P p s log t) (reads : ∀ i ∈ log, i.isStore = false) : t.frame = s.frame := by
  induction traced with
  | refl => rfl
  | quiet _ _ frame _ ih => exact frame.trans (ih reads)
  | code _ _ arrived _ frame _ _ ih =>
    exact (frame.trans (arriveAll_same arrived).2).trans (ih fun i member => reads i (List.mem_append_left _ member))
  | load _ _ _ ih => exact ih fun i member => reads i (List.mem_append_left _ member)
  | look _ _ _ _ ih => exact ih fun i member => reads i (List.mem_append_left _ member)
  | store _ _ _ _ _ _ => exact absurd (reads _ (List.mem_append_right _ List.mem_cons_self)) (by simp [Insn.isStore])

theorem Traced.written (traced : Traced P p s log t) (reads : ∀ i ∈ log.dropLast, i.isStore = false) :
    t.frame = s.frame ∨ ∃ r slot kind value, log.getLast? = some (.store kind slot) ∧ p.slots.slot r = .ok slot ∧
      s.frame.set r value = .ok t.frame := by
  induction traced with
  | refl => exact .inl rfl
  | quiet _ _ frame _ ih =>
    rw [frame]
    exact ih reads
  | code prior _ arrived _ frame _ _ _ =>
    rw [List.dropLast_concat] at reads
    exact .inl ((frame.trans (arriveAll_same arrived).2).trans (prior.still reads))
  | load prior _ _ _ =>
    rw [List.dropLast_concat] at reads
    exact .inl (prior.still reads)
  | look prior _ _ _ _ =>
    rw [List.dropLast_concat] at reads
    exact .inl (prior.still reads)
  | store prior placed _ written _ _ =>
    rw [List.dropLast_concat] at reads
    rw [prior.still reads] at written
    exact .inr ⟨_,_,_,_,List.getLast?_concat,placed,written⟩

theorem getElem?_snoc {q : Nat} {j : Insn} (found : (log ++ [i])[q]? = some j) :
    log[q]? = some j ∨ (q = log.length ∧ i = j) := by
  rw [List.getElem?_append] at found
  split at found
  · exact .inl found
  · rename_i past
    obtain ⟨zero,same⟩ := List.getElem?_eq_some_iff.mp found
    have last : q = log.length := by simp only [List.length_singleton] at zero; omega
    subst last
    exact .inr ⟨rfl,by simpa using same⟩

theorem fewer_stores (reads : ∀ j ∈ (log ++ [i]).dropLast, j.isStore = false) : ∀ j ∈ log.dropLast, j.isStore = false := by
  intro j member
  rw [List.dropLast_concat] at reads
  exact reads j (List.mem_of_mem_dropLast member)

theorem Traced.loads (int : P .int) (valid : s.Valid P p) (tended : Tended s.draft)
    (traced : Traced P p s log t) (reads : ∀ i ∈ log.dropLast, i.isStore = false) {q : Nat}
    (here : log[q]? = some (.load kind slot)) :
    ∃ r, p.slots.slot r = .ok slot ∧ Loads s.frame r slot (s.draft.events.size + q) t.draft := by
  -- A load that was there before the last step.
  have earlier : ∀ {log m block t}, Traced P p s log m → Evolves P m block t →
      (∃ r, p.slots.slot r = .ok slot ∧ Loads s.frame r slot (s.draft.events.size + q) m.draft) →
      ∃ r, p.slots.slot r = .ok slot ∧ Loads s.frame r slot (s.draft.events.size + q) t.draft := by
    rintro log m block t prior path ⟨r,placed,loads⟩
    have known := (valid.frame r).extends (prior.path.extends int valid)
    exact ⟨r,placed,loads.evolves int (prior.path.valid int valid) known path⟩
  induction traced with
  | refl => simp at here
  | quiet prior path _ _ ih => exact earlier prior path (ih reads here)
  | code prior _ arrived path _ _ plain ih =>
    rcases getElem?_snoc here with old | ⟨-,rfl⟩
    · exact earlier prior ((evolves_arriveAll arrived).trans path) (ih (fewer_stores reads) old)
    · cases plain
  | @load m log r slot' kind' prior placed known ih =>
    rcases getElem?_snoc here with old | ⟨rfl,same⟩
    · exact earlier prior (.emit _ .refl) (ih (fewer_stores reads) old)
    · cases same
      obtain ⟨record,before⟩ := tended.evolves int valid prior.path
      rw [List.dropLast_concat] at reads
      rw [← prior.path.size int valid,← prior.still reads]
      have event : (m.emit (.load kind slot)).draft.events[m.draft.events.size]? = some (.insn (.load kind slot)) := by
        simp [State.emit]
      exact ⟨r,placed,record,before.push _,.told event (fun ph member => Nat.ne_of_lt (before.inside ph member)) known⟩
  | @look m log r slot' kind' g prior placed group waits ih =>
    obtain ⟨has,free,plain⟩ := waits
    have form : (Insn.load kind' slot').untyped = .load kind' slot' := by simp [Insn.untyped,plain]
    rcases getElem?_snoc here with old | ⟨rfl,same⟩
    · exact earlier prior (.site .refl has form (.inl free)) (ih (fewer_stores reads) old)
    · cases same
      obtain ⟨record,before⟩ := tended.evolves int valid prior.path
      rw [List.dropLast_concat] at reads
      rw [← prior.path.size int valid,← prior.still reads]
      exact ⟨r,placed,_,before.site has form (.inl free),.waits (List.mem_append_right _ List.mem_cons_self) rfl rfl group⟩
  | store prior _ path _ _ ih =>
    rcases getElem?_snoc here with old | ⟨-,same⟩
    · exact earlier prior path (ih (fewer_stores reads) old)
    · cases same

end Lowering

end Restack
