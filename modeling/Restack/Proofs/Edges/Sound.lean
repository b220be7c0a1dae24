import Mathlib
import Restack.Proofs.Edges.Forward

namespace Restack

open Lowering

-- The edges that lowering does not see the end of: branches to labels that are placed
-- already, and exceptions. What is read behind such an edge is read as the frame at its
-- source has it, or not.

variable {c : Container} {shape : MethodShape} {item : CodeItem} {labels : LabelTable} {p : Plan}
  {start final s : State} {items : List BodyItem} {code : Code} {f : Frame} {address k m n r slot : Nat}
  {label : Label} {kind : Kind}

structure BackwardBranch (p : Plan) (start : State) (items : List BodyItem) (code : Code) (k : Nat) (label : Label)
    (s : State) (m : Nat) : Prop where
  branch : ∃ address opcode i, items[k]? = some (.instruction address opcode i) ∧ label ∈ i.targets
  reached : stateAt p start items k = .ok s
  place : code.position? label = some m
  placed : m < s.draft.events.size

-- Whether every branch back passes a test.
def backwardAll (p : Plan) (start : State) (items : List BodyItem) (code : Code) (test : State → Bool) : Bool :=
  (List.range items.length).all fun k =>
    match items[k]?,stateAt p start items k with
    | some (.instruction _ _ i),.ok s =>
      i.targets.all fun label => (code.position? label).all fun m => decide (s.draft.events.size ≤ m) || test s
    | _,_ => true

theorem BackwardBranch.passes {test : State → Bool} (back : BackwardBranch p start items code k label s m)
    (all : backwardAll p start items code test = true) : test s = true := by
  obtain ⟨address,opcode,i,here,target⟩ := back.branch
  have inside := (List.getElem?_eq_some_iff.mp here).1
  have passed := List.all_eq_true.mp all k (List.mem_range.mpr inside)
  rw [here,back.reached] at passed
  have led := List.all_eq_true.mp passed label target
  rw [back.place,Option.all_some,Bool.or_eq_true,decide_eq_true_eq] at led
  exact led.resolve_left (Nat.not_le_of_lt back.placed)

def Code.InRange (code : Code) (label : Label) (s : State) : Prop :=
  ∃ block ∈ code.tryBlocks, ∃ first past, block.handler = label ∧ code.position? block.start = some first ∧
    code.position? block.stop = some past ∧ first < s.draft.events.size ∧ s.draft.events.size ≤ past

-- Ranges are kept twice, by labels in the exception table and by the addresses that a
-- handler hears.
structure ExceptionEdge (p : Plan) (start : State) (items : List BodyItem) (code : Code) (k address : Nat) (label : Label)
    (s : State) (m : Nat) : Prop where
  instruction : ∃ opcode i, items[k]? = some (.instruction address opcode i)
  reached : stateAt p start items k = .ok s
  place : code.position? label = some m
  covered : code.InRange label s ∨ label ∈ p.handlers.covering address

def HeardInTime (p : Plan) (address : Nat) (label : Label) (s : State) (m : Nat) : Prop :=
  label ∈ p.handlers.covering address ∧ s.draft.events.size ≤ m

-- What is read of a slot from an event on has the kind that a frame gives to the register.
def ReadAs (code : Code) (d : Draft) (f : Frame) (m r slot : Nat) : Prop :=
  ∀ kind, code.Reads slot kind m → f.kindAt? d r = some kind

-- If the slot is read, the frame gives a kind to the register, whatever it is.
def Holds (code : Code) (d : Draft) (f : Frame) (m r slot : Nat) : Prop :=
  ∀ kind, code.Reads slot kind m → (f.kindAt? d r).isSome

theorem event_of {event : Event} (events : code.events = final.draft.events.toList) (found : code.events[n]? = some event) :
    final.draft.events[n]? = some event := by
  rw [events] at found
  simpa using found

namespace Translates

variable (way : Translates c shape item labels p start final) (events : code.events = final.draft.events.toList)
include way events

theorem throws_edge (throws : code.Throws n m) :
    ∃ k address opcode i label s t, Spans p start (item.body c labels) k n (.instruction address opcode i) s t ∧
      ExceptionEdge p start (item.body c labels) code k address label s m := by
  obtain ⟨member,first,past,low,high,here,moves,handler⟩ := throws
  obtain ⟨k,address,opcode,i,s,t,spans⟩ := way.insn_spans (event_of events here) moves
  refine ⟨k,address,opcode,i,_,s,t,spans,⟨opcode,i,spans.here⟩,spans.before,handler,.inl ⟨_,member,_,_,rfl,first,past,?_,?_⟩⟩
  · -- The label of the entry is no event of the instruction.
    by_contra inside
    have within : Spans p start (item.body c labels) k _ (.instruction address opcode i) s t :=
      ⟨spans.here,spans.before,spans.after,Nat.le_of_not_lt inside,Nat.lt_of_le_of_lt low spans.high⟩
    obtain ⟨_,_,_,_,_,-,same,-⟩ := way.span_instruction within (event_of events (Code.position_event first))
    cases same
  · exact Nat.le_trans spans.low (Nat.le_of_lt high)

-- Along a path to a load the frames give its kind to the register, if they do over the
-- edges that lowering does not see the end of.
theorem reads_kind (mine : p.slots.slot r = .ok slot)
    (branches : ∀ k label s m g, BackwardBranch p start (item.body c labels) code k label s m →
      Meets p start (item.body c labels) m g → code.Reads slot kind m → g.kindAt? final.draft r = some kind →
      s.frame.kindAt? final.draft r = some kind)
    (exceptions : ∀ k address label s m, ExceptionEdge p start (item.body c labels) code k address label s m →
      ¬HeardInTime p address label s m → code.Reads slot kind m → s.frame.kindAt? final.draft r = some kind)
    (reads : code.Reads slot kind n) (here : Meets p start (item.body c labels) n f) :
    f.kindAt? final.draft r = some kind := by
  induction reads generalizing f with
  | here found => exact way.load_kind here (event_of events found) mine
  | @later n m event found apart flow rest ih =>
    obtain ⟨g,next⟩ := way.meets (n := m) (by simpa [events] using rest.inside)
    have known := ih next
    rcases flow with edge | throws
    · cases edge with
      | falls there goes _ =>
        rw [found] at there
        cases there
        exact Frame.kindAt_below (way.falls_carry here next (event_of events found) goes apart mine) known
      | jumps there target place =>
        obtain ⟨k,address,opcode,i,s,t,spans,branch⟩ := way.jump_spans (event_of events there) target
        obtain ⟨j,above,u,v,label,last⟩ := way.label_spans (event_of events (Code.position_event place))
        obtain rfl := way.meets_code here spans
        by_cases back : m < s.draft.events.size
        · exact branches k _ s m g ⟨⟨address,opcode,i,spans.here,branch⟩,spans.before,place,back⟩ next rest known
        · obtain rfl := way.meets_label next label last
          exact Frame.kindAt_below
            (way.branch_carry spans.here branch spans.before label last (Nat.le_of_not_lt back) r) known
    · obtain ⟨k,address,opcode,i,handler,s,t,spans,edge⟩ := way.throws_edge events throws
      obtain rfl := way.meets_code here spans
      by_cases heard : HeardInTime p address handler s m
      · obtain ⟨j,above,u,v,label,last⟩ := way.label_spans (event_of events (Code.position_event edge.place))
        obtain rfl := way.meets_label next label last
        exact Frame.kindAt_below (way.heard_carry spans.here heard.1 spans.before label last heard.2 r) known
      · exact exceptions k address handler s m edge heard rest

end Translates

end Restack
