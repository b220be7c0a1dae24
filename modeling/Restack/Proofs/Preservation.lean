import Mathlib
import Restack.Proofs.Machine.Simulation
import Restack.Proofs.Translation

namespace Restack

open Lowering

-- Register code and the stack code it becomes do the same, as long as they compute with
-- ints and longs: every run that ends makes the same calls and ends the same way.

variable {c : Container} {shape : MethodShape} {item : CodeItem} {labels : LabelTable} {p : Plan} {start final s : State}
  {file : Option String} {settings : Settings} {code : Code} {body : DecodedBody} {args : List Number} {oracle : Oracle}
  {calls : List Call} {ending : Ending}

theorem OfTypes.integral {types : List Descriptor} (fits : OfTypes args types) : ∀ type ∈ types, Integral type := by
  intro type member
  have mapped : type.kind? ∈ args.map fun value => some value.kind := by
    rw [fits]
    exact List.mem_map_of_mem member
  obtain ⟨value,-,known⟩ := List.mem_map.mp mapped
  unfold Integral Descriptor.isIntegral
  rw [← known]
  cases value <;> rfl

theorem OfTypes.words {types : List Descriptor} (fits : OfTypes args types) :
    Mirrors.totalWords args = (types.map Descriptor.slots).sum := by
  induction types generalizing args with
  | nil =>
    cases args with
    | nil => rfl
    | cons value args => cases fits
  | cons type types ih =>
    cases args with
    | nil => cases fits
    | cons value args =>
      obtain ⟨known,rest⟩ := List.cons.inj fits
      have further := ih rest
      simp only [Mirrors.totalWords,List.map_cons,List.sum_cons] at further ⊢
      rw [further,slots_words known.symm]

theorem entered_registers {types : List Descriptor} {f g : Frame} {n m : Nat}
    (ran : types.foldlM enterArgument (f,n) = .ok (g,m)) : m = n + (types.map Descriptor.slots).sum := by
  induction types generalizing f n with
  | nil =>
    cases ran
    rfl
  | cons type types ih =>
    simp only [List.foldlM_cons,enterArgument,bind_eq_ok,pure_eq_ok] at ran
    obtain ⟨_,⟨h,-,rfl⟩,ran⟩ := ran
    rw [ih ran,List.map_cons,List.sum_cons,Nat.add_assoc]

theorem entryFrame_filled {slots : Slots} {f : Frame} (static : shape.isStatic = true)
    (entered : entryFrame shape slots = .ok f) :
    slots.firstIn + (shape.signature.args.map Descriptor.slots).sum = slots.registers := by
  obtain ⟨first,-,ran⟩ := entryFrame_ok entered
  have filled := entered_registers ran
  rw [if_pos static,Nat.add_zero] at filled
  exact filled.symm

namespace Translates

theorem integerBody (way : Translates c shape item labels p start final) (static : shape.isStatic = true)
    (untried : item.tries = []) (result : shape.signature.result.isIntegral = true)
    (given : ∀ type ∈ shape.signature.args, Integral type)
    (integral : ∀ part ∈ (DecodedBody.ofCode c item.units labels).items, part.isIntegral = true) :
    IntegerBody p start (DecodedBody.ofCode c item.units labels).items where
  enough := way.slots_eq.2
  uncaught := by
    intro n
    have none := way.planned.handlers
    rw [Handlers.ofCode,untried] at none
    rw [← Except.ok.inj none]
    rfl
  result := by
    rw [way.planned.shaped]
    exact result
  integral := integral
  regular := by
    intro address opcode i member
    obtain ⟨e,-,decoded⟩ := way.decoded member
    exact decoded.regular
  joins := by
    intro address opcode i label there s member target labelled
    obtain ⟨e,-,decoded⟩ := way.decoded member
    exact way.isJoin labelled (decoded.targets label target) s
  valid := prepare_valid given (fun notStatic => by rw [static] at notStatic; cases notStatic) way.prepared
  empty := by
    rw [way.planned.first]

theorem start_alike (way : Translates c shape item labels p start final) (static : shape.isStatic = true)
    (fits : OfTypes args shape.signature.args) :
    Alike p.slots start.pending (RegisterMachine.start item args) (StackMachine.start args) := by
  obtain ⟨slots,enough⟩ := way.slots_eq
  have filled := entryFrame_filled static way.planned.frame
  rw [← fits.words] at filled
  have entered := Mirrors.enter (n := 0) enough (Mirrors.empty p.slots) (Nat.le_of_eq filled)
  refine ⟨?_,rfl,?_⟩
  · simpa [slots,Slots.firstIn,RegisterMachine.start,StackMachine.start] using entered
  · rw [way.planned.first]
    rfl

end Translates

-- The meaning of a body of ints and longs is kept. The stack code is deterministic, so
-- what it does instead cannot be anything else.
theorem integer_runs_kept (accepted : Code.ofItem c shape item file settings = .ok code)
    (decoded : Code.bodyOf c item file settings = .ok body) (static : shape.isStatic = true) (untried : item.tries = [])
    (result : shape.signature.result.isIntegral = true) (integral : ∀ part ∈ body.items, part.isIntegral = true)
    (fits : OfTypes args shape.signature.args)
    (run : (RegisterMachine.machine oracle shape.signature.result body.items).Runs 0 (RegisterMachine.start item args)
      calls ending) :
    (StackMachine.machine oracle code.events).Runs 0 (StackMachine.start args) calls ending ∧
      ∀ made reached, (StackMachine.machine oracle code.events).Runs 0 (StackMachine.start args) made reached →
        made = calls ∧ reached = ending := by
  obtain ⟨labels,p,start,final,way,same,events,-⟩ := ofItem_translates accepted
  rw [decoded] at same
  cases same
  have whole := way.integerBody static untried result fits.integral integral
  obtain ⟨last,ends⟩ := finish_spec whole.typed rfl
    (fun part member => integral_item whole.result (integral part member)) whole.valid way.finished
  have ran : stateAt p start (DecodedBody.ofCode c item.units labels).items
      (DecodedBody.ofCode c item.units labels).items.length = .ok last := (stateAt_past (Nat.le_refl _)).trans ends.ran
  -- Defaults change nothing: they are what placeholders stand for anyway.
  have kept : code.events = last.draft.events.toList := by
    rw [events,settles_integral ends.settles (whole.stateAt_written ran).plain]
  rw [← way.planned.shaped] at run
  have matched := whole.runs ran run start _ stateAt_zero (way.start_alike static fits)
  rw [whole.empty,← kept] at matched
  exact ⟨matched,fun made reached other => other.unique matched⟩

-- A method of type (J)J in the pools.
def callPool : Container :=
  { bare with
    bytes := #[0,1,0,0,0,0,0]
    strings := #["J","La/T;","f","JJ"]
    types := #[0,1]
    protos := #[⟨3,0,1⟩]
    methods := #[⟨1,0,2⟩] }

-- v2 counts down, and as often the method is called on the long in v3, whose result
-- takes its place.
def callLoop : CodeItem where
  registers := 5
  ins := 3
  outs := 2
  debugInfo := 0
  units := #[0x0238,0x0009,0x2071,0x0000,0x0043,0x030b,0x02d8,0xff02,0xf828,0x0310]
  tries := []
  handlers := []

def callLoopShape : MethodShape := ⟨.object "a/T",true,⟨[.int,.long],.long⟩⟩

-- Calls give 7, 14, and so on.
def sevens : Oracle := ⟨fun _ => 0,fun calls => 7 * calls.length⟩

theorem integer_runs_kept_callLoop :
    ∃ code body calls, Code.ofItem callPool callLoopShape callLoop none {} = .ok code ∧
      Code.bodyOf callPool callLoop none {} = .ok body ∧ (∀ part ∈ body.items, part.isIntegral = true) ∧
      calls = [⟨⟨"a/T","f","(J)J"⟩,[.long 5]⟩,⟨⟨"a/T","f","(J)J"⟩,[.long 7]⟩] ∧
      (RegisterMachine.machine sevens .long body.items).Runs 0 (RegisterMachine.start callLoop [.int 2,.long 5]) calls
        (.returned (some (.long 14))) ∧
      (StackMachine.machine sevens code.events).Runs 0 (StackMachine.start [.int 2,.long 5]) calls
        (.returned (some (.long 14))) ∧
      ∀ made reached, (StackMachine.machine sevens code.events).Runs 0 (StackMachine.start [.int 2,.long 5]) made reached →
        made = calls ∧ reached = .returned (some (.long 14)) := by
  obtain ⟨code,body,accepted,decoded,integral,run⟩ :
      ∃ code body, Code.ofItem callPool callLoopShape callLoop none {} = .ok code ∧
        Code.bodyOf callPool callLoop none {} = .ok body ∧ (∀ part ∈ body.items, part.isIntegral = true) ∧
        (RegisterMachine.machine sevens .long body.items).Runs 0 (RegisterMachine.start callLoop [.int 2,.long 5])
          [⟨⟨"a/T","f","(J)J"⟩,[.long 5]⟩,⟨⟨"a/T","f","(J)J"⟩,[.long 7]⟩] (.returned (some (.long 14))) :=
    ⟨_,_,rfl,rfl,by decide,
      .next rfl (.next rfl (.next rfl (.next rfl (.next rfl (.jump rfl rfl
        (.next rfl (.next rfl (.next rfl (.next rfl (.jump rfl rfl (.jump rfl rfl (.ends rfl))))))))))))⟩
  exact ⟨code,body,_,accepted,decoded,integral,rfl,run,integer_runs_kept accepted decoded rfl rfl rfl integral rfl run⟩

end Restack
