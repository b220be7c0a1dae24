import Mathlib
import Restack.Proofs.Machine.Templates

namespace Restack

open Lowering
open StackMachine (executeAll?)

-- A body and what it was lowered to, run side by side. Between two items the machines are
-- alike; how many events were there when lowering came to an item is where stack code is
-- when register code is at the item.

variable {p : Plan} {start s t last : State} {items : List BodyItem} {oracle : Oracle} {events : List Event} {k j : Nat}
  {address : Nat} {label : Label} {opcode : Opcode} {i : Instruction} {r : RegisterMachine.State} {m : StackMachine.State}
  {calls : List Call} {ending : Ending} {pending : Option Descriptor}
  {item : BodyItem} {returns : Descriptor} {u : RegisterMachine.State}

-- A body of ints and longs without handlers.
structure IntegerBody (p : Plan) (start : State) (items : List BodyItem) : Prop where
  enough : p.slots.ins ≤ p.slots.registers
  uncaught : ∀ n, p.handlers.caught.get? n = none
  result : Integral p.shape.signature.result
  integral : ∀ item ∈ items, item.isIntegral = true
  regular : ∀ address opcode i, .instruction address opcode i ∈ items → i.Regular
  joins : ∀ address opcode i label there s, .instruction address opcode i ∈ items → label ∈ i.targets →
    .label there label ∈ items → isJoin p there label s = true
  valid : start.Valid Integral p
  empty : start.draft.events = #[]

theorem executeAll_popping (left : Leaves pending r.result m.stack) :
    executeAll? oracle (popping pending) m = some (.next { m with stack := [] }) := by
  cases pending with
  | none =>
    have clear : m.stack = [] := left
    simp [popping,executeAll?,← clear]
  | some type =>
    obtain ⟨value,-,stack,known⟩ := left
    have wide := isWide_of_kind known
    cases value with
    | int x => simp [popping,executeAll?,StackMachine.execute?,StackMachine.State.popInt?,stack,← wide,Number.kind,Kind.isWide]
    | long x =>
      simp [popping,executeAll?,StackMachine.execute?,StackMachine.State.pop?,stack,← wide,Number.kind,Kind.isWide]

namespace IntegerBody

theorem typed (body : IntegerBody p start items) : p.Typed Integral := by
  refine ⟨integral_closed,?_⟩
  intro n type found
  rw [body.uncaught] at found
  cases found

theorem stateAt_valid (body : IntegerBody p start items) (now : stateAt p start items k = .ok s) : s.Valid Integral p :=
  Lowering.stateAt_valid body.typed (fun item member => integral_item body.result (body.integral item member)) body.valid now

-- What one item adds.

theorem label_step (body : IntegerBody p start items) (plain : Plain s.draft) (now : stateAt p start items k = .ok s)
    (placed : placeLabel p address label s = .ok t) :
    Plain t.draft ∧
      t.draft.events.toList = s.draft.events.toList ++
        (if isJoin p address label s then popping s.pending else []).map .insn ++ [.label label] ∧
      t.pending = if isJoin p address label s then none else s.pending := by
  have shown := placeLabel_spec body.typed.closed (body.stateAt_valid now) placed
  obtain ⟨after,added⟩ := label_events (body.stateAt_valid now) plain shown
  refine ⟨after,added,?_⟩
  rw [shown.pending,body.uncaught,Option.none_or]
  unfold beforeLabel
  split
  · exact (discardPending_spec (P := Integral) s).2.1
  · rfl

theorem instruction_step (body : IntegerBody p start items) (plain : Plain s.draft) (now : stateAt p start items k = .ok s)
    (member : .instruction address opcode i ∈ items) (placed : placeInstruction p address opcode i s = .ok t) :
    Plain t.draft ∧ ∃ parts block,
      t.draft.events.toList = s.draft.events.toList ++ (dropping i s.pending ++ block).map .insn ∧
      Template p.shape.signature.result i (if takesPending i then s.pending else none) parts t.pending ∧
      ExpandsAll Integral p parts block := by
  have integral := body.integral _ member
  have given : ItemTyped Integral p (.instruction address opcode i) := integral_item body.result integral
  obtain ⟨m,parts,block,u,shown⟩ := placeInstruction_spec body.typed.closed (body.stateAt_valid now) given placed
  obtain ⟨after,added⟩ := instruction_events integral (body.stateAt_valid now) plain shown
  refine ⟨after,parts,block,added,?_,shown.lowered.expands⟩
  have template := shown.lowered.template
  rw [shown.pending] at template
  obtain rfl := shown.result
  exact template

-- What is known of the events before an item: none changes any more, and their labels are
-- those of the items before.
structure Written (items : List BodyItem) (k : Nat) (s : State) : Prop where
  plain : Plain s.draft
  labels : ∀ label, .label label ∈ s.draft.events.toList → ∃ j address, j < k ∧ items[j]? = some (.label address label)

theorem place_written (body : IntegerBody p start items) (here : items[k]? = some item)
    (now : stateAt p start items k = .ok s) (written : Written items k s) (placed : place p s item = .ok t) :
    Written items (k + 1) t ∧ s.draft.events.toList <+: t.draft.events.toList := by
  have earlier : ∀ label, .label label ∈ s.draft.events.toList →
      ∃ j address, j < k + 1 ∧ items[j]? = some (.label address label) := by
    intro label present
    obtain ⟨j,address,before,found⟩ := written.labels label present
    exact ⟨j,address,Nat.lt_succ_of_lt before,found⟩
  cases item with
  | label address label =>
    obtain ⟨plain,added,-⟩ := body.label_step written.plain now placed
    refine ⟨⟨plain,?_⟩,by rw [added,List.append_assoc]; exact List.prefix_append ..⟩
    intro other present
    rw [added] at present
    rcases List.mem_append.mp present with before | same
    · rcases List.mem_append.mp before with old | popped
      · exact earlier other old
      · simp at popped
    · cases List.mem_singleton.mp same
      exact ⟨k,address,Nat.lt_succ_self k,here⟩
  | instruction address opcode i =>
    obtain ⟨plain,parts,block,added,-⟩ := body.instruction_step written.plain now (List.mem_of_getElem? here) placed
    refine ⟨⟨plain,?_⟩,by rw [added]; exact List.prefix_append ..⟩
    intro other present
    rw [added] at present
    rcases List.mem_append.mp present with old | lowered
    · exact earlier other old
    · simp at lowered

theorem stateAt_written (body : IntegerBody p start items) (now : stateAt p start items k = .ok s) : Written items k s := by
  induction k generalizing s with
  | zero =>
    cases now
    exact ⟨by simp [Plain,Draft.outline,body.empty],by simp [body.empty]⟩
  | succ k ih =>
    rcases stateAt_next now with ⟨-,now⟩ | ⟨item,m,found,reached,placed⟩
    · obtain ⟨plain,labels⟩ := ih now
      refine ⟨plain,?_⟩
      intro label present
      obtain ⟨j,address,before,here⟩ := labels label present
      exact ⟨j,address,Nat.lt_succ_of_lt before,here⟩
    · exact (body.place_written found reached (ih reached) placed).1

theorem stateAt_prefix (body : IntegerBody p start items) (before : k ≤ j) (now : stateAt p start items k = .ok s)
    (later : stateAt p start items j = .ok t) : s.draft.events.toList <+: t.draft.events.toList := by
  refine stateAt_keeps (I := fun m => s.draft.events.toList <+: m.draft.events.toList) now (List.prefix_refl _) ?_ before later
  intro n item m u _ found reached shorter placed
  exact shorter.trans (body.place_written found reached (body.stateAt_written reached) placed).2

theorem place_label (body : IntegerBody p start items) (ran : stateAt p start items items.length = .ok last)
    (found : (RegisterMachine.machine oracle returns items).place? label = some k) :
    ∃ address s t n, items[k]? = some (.label address label) ∧ stateAt p start items k = .ok s ∧
      stateAt p start items (k + 1) = .ok t ∧ placeLabel p address label s = .ok t ∧
      (StackMachine.machine oracle last.draft.events.toList).place? label = some n ∧ t.draft.events.size = n + 1 := by
  obtain ⟨⟨item,here,named⟩,first⟩ := Machine.place_eq.mp found
  cases item with
  | instruction address opcode i => cases named
  | label address other =>
    cases named
    have inside := (List.getElem?_eq_some_iff.mp here).1
    obtain ⟨t,next⟩ := stateAt_before ran (Nat.succ_le_of_lt inside)
    obtain ⟨s,now,placed⟩ := (stateAt_succ here).mp next
    have written := body.stateAt_written now
    obtain ⟨-,added,-⟩ := body.label_step written.plain now placed
    obtain ⟨rest,all⟩ := body.stateAt_prefix (Nat.succ_le_of_lt inside) next ran
    generalize (if isJoin p address label s then popping s.pending else []) = pops at added
    have size := congrArg List.length added
    simp only [Array.length_toList,List.length_append,List.length_singleton] at size
    refine ⟨address,s,t,_,here,now,next,placed,Machine.place_eq.mpr ⟨⟨.label label,?_,rfl⟩,?_⟩,size⟩
    · simp only [StackMachine.machine,← all,added]
      simp
    · -- The same label further up would have an item further up.
      intro j event before found same
      simp only [StackMachine.machine,← all,added] at found
      rw [List.append_assoc,List.getElem?_append_left (by simpa using before)] at found
      rcases List.mem_append.mp (List.mem_of_getElem? found) with old | popped
      · cases event with
        | insn i => cases same
        | label other =>
          cases same
          obtain ⟨above,there,earlier,known⟩ := written.labels label old
          exact first above _ earlier known rfl
      · obtain ⟨i,-,rfl⟩ := List.mem_map.mp popped
        cases same

def Tracks (p : Plan) (start : State) (items : List BodyItem) (oracle : Oracle) (events : List Event) (calls : List Call)
    (ending : Ending) (k : Nat) (r : RegisterMachine.State) : Prop :=
  ∀ s m, stateAt p start items k = .ok s → Alike p.slots s.pending r m →
    (StackMachine.machine oracle events).Runs s.draft.events.size m calls ending

theorem label_runs (body : IntegerBody p start items) (ran : stateAt p start items items.length = .ok last)
    (here : items[k]? = some (.label address label))
    (rest : Tracks p start items oracle last.draft.events.toList calls ending (k + 1) r) :
    Tracks p start items oracle last.draft.events.toList calls ending k r := by
  intro s m now alike
  have inside := (List.getElem?_eq_some_iff.mp here).1
  obtain ⟨t,next⟩ := stateAt_before ran (Nat.succ_le_of_lt inside)
  obtain ⟨_,same,placed⟩ := (stateAt_succ here).mp next
  rw [now] at same
  cases same
  obtain ⟨-,added,pending⟩ := body.label_step (body.stateAt_written now).plain now placed
  obtain ⟨after,all⟩ := body.stateAt_prefix (Nat.succ_le_of_lt inside) next ran
  obtain ⟨u,popped,left⟩ : ∃ u, executeAll? oracle (if isJoin p address label s then popping s.pending else []) m = some (.next u) ∧
      Alike p.slots t.pending r u := by
    rw [pending]
    split
    · exact ⟨_,executeAll_popping alike.stack,alike.mirrors,alike.calls,rfl⟩
    · exact ⟨m,rfl,alike⟩
  generalize (if isJoin p address label s then popping s.pending else []) = pops at added popped
  have whole : last.draft.events.toList = s.draft.events.toList ++ pops.map .insn ++ .label label :: after := by
    rw [← all,added]
    simp
  have size : t.draft.events.size = s.draft.events.toList.length + pops.length + 1 := by
    simpa [Nat.add_assoc] using congrArg List.length added
  rw [← Array.length_toList]
  refine StackMachine.runs_block whole popped (.next ?_ (size ▸ rest t u next left))
  refine Machine.moveAt_eq (a := Event.label label) ?_ u
  simp [StackMachine.machine,whole]

def Resumes (p : Plan) (start : State) (items : List BodyItem) (oracle : Oracle) (events : List Event) (calls : List Call)
    (ending : Ending) (k : Nat) : Move RegisterMachine.State → Prop
  | .next r => Tracks p start items oracle events calls ending (k + 1) r
  | .jump label r => ∃ there, (RegisterMachine.machine oracle p.shape.signature.result items).place? label = some there ∧
      Tracks p start items oracle events calls ending (there + 1) r
  | .ends made reached => made = calls ∧ reached = ending

theorem instruction_runs {move : Move RegisterMachine.State} (body : IntegerBody p start items)
    (ran : stateAt p start items items.length = .ok last) (here : items[k]? = some (.instruction address opcode i))
    (moved : RegisterMachine.execute? oracle p.shape.signature.result r i = some move)
    (rest : Resumes p start items oracle last.draft.events.toList calls ending k move) :
    Tracks p start items oracle last.draft.events.toList calls ending k r := by
  intro s m now alike
  have member := List.mem_of_getElem? here
  have inside := (List.getElem?_eq_some_iff.mp here).1
  obtain ⟨t,next⟩ := stateAt_before ran (Nat.succ_le_of_lt inside)
  obtain ⟨_,same,placed⟩ := (stateAt_succ here).mp next
  rw [now] at same
  cases same
  obtain ⟨-,parts,block,added,template,expanded⟩ :=
    body.instruction_step (body.stateAt_written now).plain now member placed
  obtain ⟨after,all⟩ := body.stateAt_prefix (Nat.succ_le_of_lt inside) next ran
  obtain ⟨u,popped,left⟩ : ∃ u, executeAll? oracle (dropping i s.pending) m = some (.next u) ∧
      Alike p.slots (if takesPending i then s.pending else none) r u := by
    unfold dropping
    split
    · exact ⟨m,rfl,alike⟩
    · exact ⟨_,executeAll_popping alike.stack,alike.mirrors,alike.calls,rfl⟩
  have answers : Translated p oracle parts u t.pending (RegisterMachine.execute? oracle p.shape.signature.result r i) :=
    template_answers body.enough (body.integral _ member) (body.regular _ _ _ member) template left
  have answers := answers block expanded
  rw [moved,← StackMachine.executeAll_next popped] at answers
  have whole : last.draft.events.toList = s.draft.events.toList ++ (dropping i s.pending ++ block).map .insn ++ after := by
    rw [← all,added]
  have size : t.draft.events.size = s.draft.events.toList.length + (dropping i s.pending ++ block).length := by
    simpa using congrArg List.length added
  rw [← Array.length_toList]
  cases move with
  | next q =>
    obtain ⟨v,goes,agrees⟩ := answers
    exact StackMachine.runs_block whole goes (size ▸ rest t v next agrees)
  | jump label q =>
    obtain ⟨v,goes,agrees⟩ := answers
    obtain ⟨there,target,onward⟩ := rest
    obtain ⟨place,before,behind,n,labelled,above,below,put,found,length⟩ := body.place_label ran target
    -- Paths meet at the label, so nothing is left there.
    obtain ⟨-,-,pending⟩ := body.label_step (body.stateAt_written above).plain above put
    rw [body.joins _ _ _ _ _ _ member (RegisterMachine.jump_target moved) (List.mem_of_getElem? labelled)] at pending
    exact StackMachine.runs_block whole goes ⟨n,found,length ▸ onward behind v below (pending ▸ agrees)⟩
  | ends made reached => exact StackMachine.runs_block whole answers rest

theorem item_runs {move : Move RegisterMachine.State} (body : IntegerBody p start items)
    (ran : stateAt p start items items.length = .ok last)
    (moved : (RegisterMachine.machine oracle p.shape.signature.result items).moveAt? k r = some move)
    (rest : Resumes p start items oracle last.draft.events.toList calls ending k move) :
    Tracks p start items oracle last.draft.events.toList calls ending k r := by
  obtain ⟨item,here,moved⟩ := Option.bind_eq_some_iff.mp moved
  cases item with
  | label address label =>
    cases moved
    exact body.label_runs ran here rest
  | instruction address opcode i => exact body.instruction_runs ran here moved rest

theorem runs (body : IntegerBody p start items) (ran : stateAt p start items items.length = .ok last)
    (run : (RegisterMachine.machine oracle p.shape.signature.result items).Runs k r calls ending) :
    Tracks p start items oracle last.draft.events.toList calls ending k r := by
  induction run with
  | ends moved => exact body.item_runs ran moved ⟨rfl,rfl⟩
  | next moved _ ih => exact body.item_runs ran moved ih
  | jump moved placed _ ih => exact body.item_runs ran moved ⟨_,placed,ih⟩

end IntegerBody

end Restack
