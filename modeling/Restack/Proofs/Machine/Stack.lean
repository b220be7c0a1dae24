import Mathlib
import Restack.Code
import Restack.Proofs.Machine.Basic

namespace Restack.StackMachine

-- Stack code as it runs. A long in local variables takes two slots; whoever writes
-- one of them takes it away.

structure State where
  locals : Nat → Option Number
  stack : List Number := []
  calls : List Call := []

def storeAt (locals : Nat → Option Number) (slot : Nat) (value : Number) (n : Nat) : Option Number :=
  if n = slot then some value
  else if n = slot + 1 ∧ value.kind = .long then none
  else
    match locals n with
    | some (.long bits) => if n + 1 = slot then none else some (.long bits)
    | found => found

def constant? : Constant → Option Number
  | .int value => some (.int value.toBitVec)
  | .long value => some (.long value.toBitVec)
  | _ => none

namespace State

def push (s : State) (value : Number) : State := { s with stack := value :: s.stack }

def pop? (s : State) (kind : Kind) : Option (Number × State) :=
  match s.stack with
  | value :: rest => if value.kind = kind then some (value,{ s with stack := rest }) else none
  | [] => none

def popInt? (s : State) : Option (BitVec 32 × State) :=
  match s.stack with
  | .int a :: rest => some (a,{ s with stack := rest })
  | _ => none

def popAll? (s : State) (types : List Descriptor) : Option (List Number × State) :=
  let args := (s.stack.take types.length).reverse
  if OfTypes args types then
    some (args,{ s with stack := s.stack.drop types.length })
  else none

def branch (s : State) (taken : Bool) (target : Label) : Move State := if taken then .jump target s else .next s

end State

def execute? (oracle : Oracle) (s : State) : Insn → Option (Move State)
  | .const value => do return .next (s.push (← constant? value))
  | .load kind slot => do
    let value ← s.locals slot
    if value.kind = kind then some (.next (s.push value)) else none
  | .store kind slot => do
    let (value,s) ← s.pop? kind
    return .next { s with locals := storeAt s.locals slot value }
  | .pop => do return .next (← s.popInt?).2
  | .pop2 => do return .next (← s.pop? .long).2
  | .arith .neg kind => do
    match ← s.pop? kind with
    | (.int a,s) => return .next (s.push (.int (-a)))
    | (.long a,s) => return .next (s.push (.long (-a)))
  | .arith op kind =>
    match s.stack with
    | b :: a :: rest => do
      if a.kind = kind then
        match ← op.compute? a b with
        | .ok value => return .next { s with stack := value :: rest }
        | .error ending => return .ends s.calls ending
      else none
    | _ => none
  | .convert .int .long => do
    let (a,s) ← s.popInt?
    return .next (s.push (.long (a.signExtend 64)))
  | .convert .long .int =>
    match s.stack with
    | .long a :: rest => some (.next { s with stack := .int (a.setWidth 32) :: rest })
    | _ => none
  | .narrow width => do
    let (a,s) ← s.popInt?
    return .next (s.push (.int (width.apply a)))
  | .compareLong =>
    match s.stack with
    | .long b :: .long a :: rest => some (.next { s with stack := .int (longOrder a b) :: rest })
    | _ => none
  | .jump .always target => some (s.branch true target)
  | .jump (.zero c) target => do
    let (a,s) ← s.popInt?
    return s.branch (c.holds a 0) target
  | .jump (.ints c) target => do
    let (b,s) ← s.popInt?
    let (a,s) ← s.popInt?
    return s.branch (c.holds a b) target
  | .tableSwitch low fallback targets => do
    let (a,s) ← s.popInt?
    return s.branch true (tableCase a low.toBitVec targets fallback)
  | .lookupSwitch fallback pairs => do
    let (a,s) ← s.popInt?
    return s.branch true (lookupCase a pairs fallback)
  | .leave none => some (.ends s.calls (.returned none))
  | .leave (some kind) => do
    let (value,s) ← s.pop? kind
    return .ends s.calls (.returned (some value))
  | .invoke .static method => do
    let signature ← MethodDescriptor.parse? method.desc
    let (args,s) ← s.popAll? signature.args
    let calls := s.calls ++ [⟨method,args⟩]
    let result ← oracle.answer? signature.result calls
    return .next { s with calls, stack := result.toList ++ s.stack }
  | _ => none

def labelOf? : Event → Option Label
  | .label label => some label
  | .insn _ => none

def moveEvent? (oracle : Oracle) : Event → State → Option (Move State)
  | .label _, s => some (.next s)
  | .insn i, s => execute? oracle s i

def machine (oracle : Oracle) (events : List Event) : Machine Event State := ⟨events,labelOf?,moveEvent? oracle⟩

def enter : Nat → List Number → (Nat → Option Number) → Nat → Option Number
  | _, [], locals => locals
  | slot, value :: values, locals => enter (slot + value.words) values (storeAt locals slot value)

def start (args : List Number) : State := { locals := enter 0 args fun _ => none }

def executeAll? (oracle : Oracle) : List Insn → State → Option (Move State)
  | [], s => some (.next s)
  | i :: rest, s =>
    match execute? oracle s i with
    | some (.next t) => executeAll? oracle rest t
    | moved => moved

variable {oracle : Oracle} {events before after : List Event} {block : List Insn} {s : State} {move : Move State}
  {calls : List Call} {ending : Ending}

theorem runs_block (placed : events = before ++ block.map .insn ++ after)
    (moved : executeAll? oracle block s = some move)
    (rest : (machine oracle events).Continues (before.length + block.length) calls ending move) :
    (machine oracle events).Runs before.length s calls ending := by
  induction block generalizing before s with
  | nil =>
    cases moved
    exact rest
  | cons i insns ih =>
    have first : events[before.length]? = some (.insn i) := by
      subst placed
      simp
    have here : (machine oracle events).moveAt? before.length s = execute? oracle s i :=
      Machine.moveAt_eq (m := machine oracle events) (a := .insn i) first s
    have next : events = (before ++ [.insn i]) ++ insns.map .insn ++ after := by simp [placed]
    have same : (before ++ [Event.insn i]).length + insns.length = before.length + (i :: insns).length := by
      simp only [List.length_append,List.length_cons,List.length_nil]
      omega
    unfold executeAll? at moved
    split at moved
    · rename_i t goes
      refine .next (here.trans goes) ?_
      have onward := ih next moved (same ▸ rest)
      simpa using onward
    · rename_i other
      refine Machine.runs_of_move (here.trans moved) ?_
      cases move with
      | next t => exact absurd moved (other t)
      | jump label t => exact rest
      | ends made reached => exact rest

end Restack.StackMachine
