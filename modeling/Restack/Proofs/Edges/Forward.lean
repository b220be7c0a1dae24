import Mathlib
import Restack.Proofs.Edges.Reads
import Restack.Proofs.Edges.Spans
import Restack.Proofs.Machine.Slots

namespace Restack

open Lowering

-- What registers hold along the edges that lead forward. The frame that an event finds
-- promises what the next one finds, as long as nothing is stored in the slot.

variable {c : Container} {shape : MethodShape} {item : CodeItem} {labels : LabelTable} {p : Plan}
  {start final s t : State} {items : List BodyItem} {body : BodyItem} {event : Event} {f g : Frame} {address j k m n r slot : Nat}
  {label : Label} {opcode : Opcode} {i : Instruction} {kind : Kind}

-- The frame that an event finds. A label leaves a frame of its own, after what was left
-- before it has been dropped.
inductive Meets (p : Plan) (start : State) (items : List BodyItem) (n : Nat) : Frame → Prop where
  | code {k address : Nat} {opcode : Opcode} {i : Instruction} {s t : State} :
      Spans p start items k n (.instruction address opcode i) s t → Meets p start items n s.frame
  | drop {k address : Nat} {label : Label} {s t : State} : Spans p start items k n (.label address label) s t →
      n + 1 < t.draft.events.size → Meets p start items n s.frame
  | label {k address : Nat} {label : Label} {s t : State} : Spans p start items k n (.label address label) s t →
      n + 1 = t.draft.events.size → Meets p start items n t.frame

namespace Translates

variable (way : Translates c shape item labels p start final)
include way

theorem meets (inside : n < final.draft.events.size) : ∃ f, Meets p start (item.body c labels) n f := by
  obtain ⟨k,body,s,t,spans⟩ := way.spans inside
  cases body with
  | instruction address opcode i => exact ⟨_,.code spans⟩
  | label address label =>
    rcases Nat.lt_or_eq_of_le (Nat.succ_le_of_lt spans.high) with more | last
    · exact ⟨_,.drop spans more⟩
    · exact ⟨_,.label spans last⟩

theorem still (here : stateAt p start items k = .ok s) (there : stateAt p start items j = .ok t) (before : k ≤ j)
    (same : t.draft.events.size = s.draft.events.size) : t.frame = s.frame := by
  refine (stateAt_keeps (I := fun m => s.draft.events.size ≤ m.draft.events.size ∧
    (m.draft.events.size = s.draft.events.size → m.frame = s.frame)) here ⟨Nat.le_refl _,fun _ => rfl⟩ ?_ before there).2 same
  rintro n body m u - - reached ⟨grown,kept⟩ done
  have valid := way.stateAt_valid reached
  cases body with
  | label address label =>
    have outline := congrArg List.length (label_outline valid done)
    simp only [Draft.outline_length,List.length_append,List.length_singleton] at outline
    exact ⟨by omega,fun same => by omega⟩
  | instruction address opcode i =>
    obtain ⟨v,parts,block,w,placed⟩ := placeInstruction_spec (typed_any p).closed valid (fun _ _ => trivial) done
    have size := placed.path.size trivial valid
    have result : u.draft = w.draft ∧ u.frame = w.frame := by rw [placed.result]; exact ⟨rfl,rfl⟩
    rw [result.1,result.2]
    refine ⟨by omega,?_⟩
    intro same
    have empty : block = [] := by
      rw [List.length_append] at size
      exact List.eq_nil_of_length_eq_zero (by omega)
    rw [placed.lowered.trace.still (by simp [empty]),placed.frame]
    rw [List.length_append] at size
    exact kept (by omega)

theorem unwritten (spans : Spans p start (item.body c labels) k n (.instruction address opcode i) s t)
    (last : n + 1 = t.draft.events.size) (found : final.draft.events[n]? = some event) (apart : event.stores slot = false)
    (mine : p.slots.slot r = .ok slot) : t.frame.state r = .unknown ∨ t.frame.state r = s.frame.state r := by
  have valid := way.stateAt_valid spans.before
  obtain ⟨m,parts,block,u,insn,placed,rfl,form⟩ := way.span_instruction spans found
  have result : t.draft = u.draft ∧ t.frame = u.frame := by rw [placed.result]; exact ⟨rfl,rfl⟩
  rw [result.2,← placed.frame]
  rcases placed.lowered.trace.written placed.lowered.stores with same | ⟨q,other,kind,value,final,theirs,written⟩
  · exact .inr (by rw [same])
  have size := placed.lowered.path.size trivial (placed.cleared.valid trivial valid)
  -- The last event is the store of the block.
  have differs : other ≠ slot := by
    rw [result.1,size] at last
    rcases form with ⟨early,-⟩ | ⟨q,old,rfl,member,same⟩
    · have some : 0 < block.length := List.length_pos_iff.mpr (by rintro rfl; cases final)
      omega
    · rw [List.getLast?_eq_getElem?,show block.length - 1 = q by omega,member] at final
      cases final
      cases insn <;> simp [Insn.untyped] at same
      simpa [Event.stores,same.2] using apart
  have apart : r ≠ q := by
    rintro rfl
    rw [mine] at theirs
    cases theirs
    exact differs rfl
  rw [(Frame.set_state written).2.2.2,if_neg apart]
  split
  · exact .inl rfl
  · split
    · exact .inl rfl
    · exact .inr rfl

theorem between {body other : BodyItem} {u v : State} (spans : Spans p start items k n body s t)
    (last : n + 1 = t.draft.events.size) (following : Spans p start items j (n + 1) other u v) :
    u.frame = t.frame ∧ u.draft.events.size = n + 1 := by
  have low := following.low
  have later : k + 1 ≤ j := by
    by_contra earlier
    have grown := way.stateAt_size following.after spans.after (by omega)
    have high := following.high
    omega
  have grown := way.stateAt_size spans.after following.before later
  exact ⟨way.still spans.after following.before later (by omega),by omega⟩

theorem falls_out (before : stateAt p start (item.body c labels) j = .ok s) (size : s.draft.events.size = n + 1)
    (found : final.draft.events[n]? = some event) (goes : event.isTerminal = false) :
    fallsOut ((item.body c labels).take j).reverse = true := by
  have flows := way.stateAt_flows before
  have shown : s.draft.outline.getLast? = some event.untyped := by
    obtain ⟨rest,whole⟩ := way.final_outline before
    have inside : n < s.draft.outline.length := by rw [Draft.outline_length]; omega
    rw [List.getLast?_eq_getElem?,Draft.outline_length,size,Nat.add_sub_cancel,← List.getElem?_append_left inside,whole]
    simp [Draft.outline,found]
  have same : event.untyped.isTerminal = event.isTerminal := by
    cases event with
    | label label => rfl
    | insn i => exact Checked.terminal_untyped i
  have ends := flows.ends
  rw [endsTerminal_outline,shown] at ends
  simpa [same,goes] using ends

theorem enters_label (there : (item.body c labels)[j]? = some (.label address label))
    (before : stateAt p start (item.body c labels) j = .ok s) (after : stateAt p start (item.body c labels) (j + 1) = .ok t)
    (falls : fallsOut ((item.body c labels).take j).reverse = true) (r : Nat) :
    RegisterState.Below final.draft (t.frame.state r) (s.frame.state r) := by
  obtain ⟨known,below⟩ := way.falls_below there after before falls
  exact (below.extends (way.final_extends after) (way.stateAt_valid after).frame known) r

-- From one event to the next: first out of an item by its last event, then in general.

theorem leaves_carry (next : Meets p start (item.body c labels) (n + 1) g)
    (spans : Spans p start (item.body c labels) k n body s t) (last : n + 1 = t.draft.events.size)
    (found : final.draft.events[n]? = some event) (goes : event.isTerminal = false) (r : Nat) :
    RegisterState.Below final.draft (g.state r) (t.frame.state r) := by
  cases next with
  | code following => rw [(way.between spans last following).1]; exact .refl _ _
  | drop following _ => rw [(way.between spans last following).1]; exact .refl _ _
  | label following _ =>
    obtain ⟨same,size⟩ := way.between spans last following
    rw [← same]
    exact way.enters_label following.here following.before following.after (way.falls_out following.before size found goes) r

theorem falls_carry (here : Meets p start (item.body c labels) n f) (next : Meets p start (item.body c labels) (n + 1) g)
    (found : final.draft.events[n]? = some event) (goes : event.isTerminal = false) (apart : event.stores slot = false)
    (mine : p.slots.slot r = .ok slot) : RegisterState.Below final.draft (g.state r) (f.state r) := by
  cases here with
  | @code k address opcode i s t spans =>
    rcases Nat.lt_or_eq_of_le (Nat.succ_le_of_lt spans.high) with more | last
    · cases next with
      | code following =>
        obtain ⟨-,-,rfl,-⟩ := way.spans_unique (spans.next more) following
        exact .refl _ _
      | drop following _ => cases (way.spans_unique (spans.next more) following).2.1
      | label following _ => cases (way.spans_unique (spans.next more) following).2.1
    · refine (way.leaves_carry next spans last found goes r).trans ?_
      rcases way.unwritten spans last found apart mine with lost | same
      · exact .inl lost
      · rw [same]
        exact .refl _ _
  | @drop k address label s t spans more =>
    cases next with
    | code following => cases (way.spans_unique (spans.next more) following).2.1
    | drop following _ =>
      obtain ⟨-,-,rfl,-⟩ := way.spans_unique (spans.next more) following
      exact .refl _ _
    | label following _ =>
      obtain ⟨-,-,-,rfl⟩ := way.spans_unique (spans.next more) following
      -- What is dropped here was left by the instruction above, so control comes from there.
      have flows := way.stateAt_flows spans.before
      rcases way.span_label spans found with ⟨last,-⟩ | ⟨-,pending,-⟩
      · omega
      · exact way.enters_label spans.here spans.before spans.after (flows.left pending) r
  | label spans last => exact way.leaves_carry next spans last found goes r

-- Over a jump, or from an instruction to a handler.

theorem meets_code (here : Meets p start items n f) (spans : Spans p start items k n (.instruction address opcode i) s t) :
    f = s.frame := by
  cases here with
  | code other =>
    obtain ⟨-,-,rfl,-⟩ := way.spans_unique spans other
    rfl
  | drop other _ => cases (way.spans_unique spans other).2.1
  | label other _ => cases (way.spans_unique spans other).2.1

theorem meets_label (here : Meets p start items n f) (spans : Spans p start items k n (.label address label) s t)
    (last : n + 1 = t.draft.events.size) : f = t.frame := by
  cases here with
  | code other => cases (way.spans_unique spans other).2.1
  | drop other more =>
    obtain ⟨-,-,-,rfl⟩ := way.spans_unique spans other
    omega
  | label other _ =>
    obtain ⟨-,-,-,rfl⟩ := way.spans_unique spans other
    rfl

theorem insn_spans {insn : Insn} (found : final.draft.events[n]? = some (.insn insn)) (moves : insn.drops = false) :
    ∃ k address opcode i s t, Spans p start (item.body c labels) k n (.instruction address opcode i) s t := by
  obtain ⟨k,body,s,t,spans⟩ := way.spans (Array.getElem?_eq_some_iff.mp found).1
  cases body with
  | instruction address opcode i => exact ⟨k,address,opcode,i,s,t,spans⟩
  | label address other =>
    rcases way.span_label spans found with ⟨-,same⟩ | ⟨-,-,i,same,drops⟩
    · cases same
    · cases same
      exact absurd drops (by simp [moves])

theorem jump_spans {insn : Insn} (found : final.draft.events[n]? = some (.insn insn)) (target : label ∈ insn.targets) :
    ∃ k address opcode i s t, Spans p start (item.body c labels) k n (.instruction address opcode i) s t ∧ label ∈ i.targets := by
  have moves : insn.drops = false := by cases insn <;> first | rfl | cases target
  obtain ⟨k,address,opcode,i,s,t,spans⟩ := way.insn_spans found moves
  obtain ⟨m,parts,block,u,_,placed,same,form⟩ := way.span_instruction spans found
  cases same
  rcases form with ⟨-,drops⟩ | ⟨q,old,-,member,alike⟩
  · exact absurd drops (by simp [moves])
  · refine ⟨k,address,opcode,i,s,t,spans,placed.lowered.targets (List.mem_of_getElem? member) ?_⟩
    rwa [← Checked.targets_untyped,← alike,Checked.targets_untyped]

theorem label_before {u v : State} (reached : stateAt p start items k = .ok s) (spans : Spans p start items j m body u v)
    (earlier : m < s.draft.events.size) : j < k := by
  by_contra later
  have grown := way.stateAt_size reached spans.before (Nat.le_of_not_lt later)
  have low := spans.low
  omega

theorem label_after {u v : State} (here : items[k]? = some (.instruction address opcode i))
    (reached : stateAt p start items k = .ok s) {above : Nat} (spans : Spans p start items j m (.label above label) u v)
    (last : m + 1 = v.draft.events.size) (later : s.draft.events.size ≤ m) : k < j := by
  by_contra before
  rcases Nat.lt_or_eq_of_le (Nat.le_of_not_lt before) with less | rfl
  · have grown := way.stateAt_size spans.after reached less
    omega
  · cases here.symm.trans spans.here

theorem guarded_carry {u v : State} {above : Nat} (spans : Spans p start (item.body c labels) j m (.label above label) u v)
    (guarded : Guarded (fun _ => True) label f u) (r : Nat) :
    RegisterState.Below final.draft (v.frame.state r) (f.state r) := by
  obtain ⟨known,below⟩ := way.guarded_below spans.here spans.after spans.before guarded
  exact (below.extends (way.final_extends spans.after) (way.stateAt_valid spans.after).frame known) r

theorem branch_carry {u v : State} {above : Nat} (here : (item.body c labels)[k]? = some (.instruction address opcode i))
    (target : label ∈ i.targets) (reached : stateAt p start (item.body c labels) k = .ok s)
    (spans : Spans p start (item.body c labels) j m (.label above label) u v) (last : m + 1 = v.draft.events.size)
    (later : s.draft.events.size ≤ m) (r : Nat) : RegisterState.Below final.draft (v.frame.state r) (s.frame.state r) :=
  way.guarded_carry spans (way.jump_guards here target (way.label_after here reached spans last later) reached spans.before) r

theorem heard_carry {u v : State} {above : Nat} (here : (item.body c labels)[k]? = some (.instruction address opcode i))
    (heard : label ∈ p.handlers.covering address) (reached : stateAt p start (item.body c labels) k = .ok s)
    (spans : Spans p start (item.body c labels) j m (.label above label) u v) (last : m + 1 = v.draft.events.size)
    (later : s.draft.events.size ≤ m) (r : Nat) : RegisterState.Below final.draft (v.frame.state r) (s.frame.state r) := by
  have first := way.label_after here reached spans last later
  have valid := way.stateAt_valid reached
  obtain ⟨t,next⟩ := stateAt_before spans.before first
  obtain ⟨_,same,done⟩ := (stateAt_succ here).mp next
  rw [reached] at same
  cases same
  obtain ⟨m,parts,block,w,placed⟩ := placeInstruction_spec (typed_any p).closed valid (fun _ _ => trivial) done
  -- Handlers hear the frame before the instruction.
  have ready : State.Valid (fun _ => True) p (if takesPending i then s else s.discardPending) ∧
      (if takesPending i then s else s.discardPending).frame = s.frame := by
    split
    · exact ⟨valid,rfl⟩
    · obtain ⟨path,-,frame,-⟩ := discardPending_spec (P := fun _ => True) s
      exact ⟨path.valid trivial valid,frame⟩
  have guarded := arriveAll_guards trivial ready.1 placed.heard heard
  rw [ready.2] at guarded
  have after := guarded.evolves trivial (placed.cleared.valid trivial valid) placed.lowered.path
  obtain rfl := placed.result
  exact way.guarded_carry spans (way.guarded_until next ⟨after.valid,after.stored⟩ first spans.before) r

-- A load has the kind that the frame it finds gives to its register.

theorem loads_final {u : State} (after : stateAt p start (item.body c labels) k = .ok u)
    (known : (f.state r).Valid (fun _ => True) u.draft) (loads : Loads f r slot n u.draft) : Loads f r slot n final.draft := by
  obtain ⟨last,ends,there⟩ := way.to_end k
  obtain ⟨still,kept⟩ := stateAt_keeps
    (I := fun m => (f.state r).Valid (fun _ => True) m.draft ∧ Loads f r slot n m.draft) after ⟨known,loads⟩
    (by
      rintro n body m w - - reached ⟨known,loads⟩ done
      have valid := way.stateAt_valid reached
      exact ⟨known.extends (place_extends (typed_any p) (itemTyped_any p body) valid done),
        loads.place (typed_any p) (itemTyped_any p body) valid known done⟩)
    (Nat.le_max_left _ _) there
  exact kept.settles (way.stateAt_valid there).draft still ends.settles

theorem load_kind (here : Meets p start (item.body c labels) n f)
    (found : final.draft.events[n]? = some (.insn (.load kind slot))) (mine : p.slots.slot r = .ok slot) :
    f.kindAt? final.draft r = some kind := by
  obtain ⟨k,address,opcode,i,s,t,spans⟩ := way.insn_spans found rfl
  obtain rfl := way.meets_code here spans
  have valid := way.stateAt_valid spans.before
  obtain ⟨m,parts,block,u,_,placed,same,form⟩ := way.span_instruction spans found
  cases same
  rcases form with ⟨-,drops⟩ | ⟨q,old,rfl,member,alike⟩
  · cases drops
  · cases old <;> simp [Insn.untyped] at alike
    rename_i early other
    obtain ⟨-,rfl⟩ := alike
    have ready := placed.cleared.valid trivial valid
    have tended := (way.stateAt_tended spans.before).evolves trivial valid placed.cleared
    obtain ⟨q,theirs,loads⟩ := placed.lowered.trace.loads trivial ready tended placed.lowered.stores member
    obtain rfl := Slots.slot_injective way.slots_eq.2 mine theirs
    have known := (ready.frame r).extends (placed.lowered.path.extends trivial ready)
    have after := spans.after
    rw [placed.result] at after
    rw [placed.frame] at loads known
    obtain ⟨last,ends⟩ := way.ends
    have resolved : ∀ g, final.draft.Has g → ∃ type, final.draft.resolution? g = some type :=
      fun g has => ends.resolved g (ends.settles.has.mp has)
    exact Frame.kindAt_of_outlook ((way.loads_final after known loads).shown resolved found)

end Translates

end Restack
