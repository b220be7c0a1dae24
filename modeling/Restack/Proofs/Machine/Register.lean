import Mathlib
import Restack.Code
import Restack.Proofs.Body.Targets
import Restack.Proofs.Machine.Basic

namespace Restack.RegisterMachine

-- Register code as it runs: registers of 32 bits, of which two neighbours hold a long.
-- Only ints and longs are known here; on every other instruction the machine is stuck.

inductive Word where
  | unwritten
  | int (bits : BitVec 32)
  | low (bits : BitVec 32)
  | high (bits : BitVec 32)
deriving DecidableEq

structure Registers where
  count : Nat
  word : Nat → Word

namespace Registers

def empty (count : Nat) : Registers := ⟨count,fun _ => .unwritten⟩

def int? (s : Registers) (r : Nat) : Option (BitVec 32) :=
  if r < s.count then
    match s.word r with
    | .int bits => some bits
    | _ => none
  else none

-- A long is read from the two halves that were written together.
def long? (s : Registers) (r : Nat) : Option (BitVec 64) :=
  if r + 1 < s.count then
    match s.word r, s.word (r + 1) with
    | .low a, .high b => some (b ++ a)
    | _, _ => none
  else none

def read? (s : Registers) (r : Nat) : Kind → Option Number
  | .int => (s.int? r).map .int
  | .long => (s.long? r).map .long
  | _ => none

def put (s : Registers) (r : Nat) (word : Word) : Registers := { s with word := Function.update s.word r word }

def write (s : Registers) (r : Nat) : Number → Registers
  | .int a => s.put r (.int a)
  | .long a => (s.put r (.low (a.extractLsb' 0 32))).put (r + 1) (.high (a.extractLsb' 32 32))

def write? (s : Registers) (r : Nat) (value : Number) : Option Registers :=
  if r + value.words ≤ s.count then some (s.write r value) else none

end Registers

-- `result` is what the call right before has given.
structure State where
  registers : Registers
  result : Option Number := none
  calls : List Call := []

namespace State

def int? (s : State) (r : Nat) : Option (BitVec 32) := s.registers.int? r

def read? (s : State) (r : Nat) (type : Descriptor) : Option Number := type.kind?.bind (s.registers.read? r)

def write? (s : State) (r : Nat) (value : Number) : Option (Move State) := do
  let registers ← s.registers.write? r value
  return .next { s with registers, result := none }

def finish? (s : State) (dest : Nat) : Except Ending Number → Option (Move State)
  | .ok value => s.write? dest value
  | .error ending => some (.ends s.calls ending)

def branch (s : State) (taken : Bool) (target : Label) : Move State :=
  if taken then .jump target { s with result := none } else .next { s with result := none }

-- The registers after those of a value in `r`. A long takes its neighbour, too.
def behind? (r : Nat) : Number → List Nat → Option (List Nat)
  | .int _, registers => some registers
  | .long _, next :: registers => if next = r + 1 then some registers else none
  | .long _, [] => none

def arguments? (s : State) : List Descriptor → List Nat → Option (List Number)
  | [], [] => some []
  | type :: types, r :: registers => do
    let value ← s.read? r type
    let registers ← behind? r value registers
    return value :: (← s.arguments? types registers)
  | _, _ => none

end State

def memberOf (m : MethodReference) : MemberRef := ⟨m.owner.internalName,m.name,m.signature.text⟩

-- The width of a move, a result or a return as a kind.
def kindOf? : MoveKind → Option Kind
  | .single => some .int
  | .wide => some .long
  | .object => none

def execute? (oracle : Oracle) (returns : Descriptor) (s : State) : Instruction → Option (Move State)
  | .nop => some (.next { s with result := none })
  | .move kind dest source => do s.write? dest (← s.registers.read? source (← kindOf? kind))
  | .moveResult kind dest => do
    let value ← s.result
    if kindOf? kind = some value.kind then s.write? dest value else none
  | .returnVoid => if returns = .void then some (.ends s.calls (.returned none)) else none
  | .returnValue kind source => do
    let value ← s.read? source returns
    if kindOf? kind = some value.kind then some (.ends s.calls (.returned (some value))) else none
  | .const dest value => s.write? dest (.int value.toBitVec)
  | .constWide dest value => s.write? dest (.long value.toBitVec)
  | .goto target => some (s.branch true target)
  | .packedSwitch value firstKey targets next => do
    return s.branch true (tableCase (← s.int? value) firstKey.toBitVec targets next)
  | .sparseSwitch value pairs next => do return s.branch true (lookupCase (← s.int? value) pairs next)
  | .compare .long dest left right => do
    s.write? dest (.int (longOrder (← s.registers.long? left) (← s.registers.long? right)))
  | .test op left right target => do return s.branch (op.holds (← s.int? left) (← s.int? right)) target
  | .testZero op value target => do return s.branch (op.holds (← s.int? value) 0) target
  | .invoke .static args m => do
    let calls := s.calls ++ [⟨memberOf m,← s.arguments? m.signature.args args⟩]
    return .next { s with calls, result := ← oracle.answer? m.signature.result calls }
  | .unary op dest source => do s.write? dest (← op.compute? (← s.read? source op.operand))
  | .binary op dest left right => do
    let a ← s.read? left op.type
    let b ← s.read? right (if op.isShift then .int else op.type)
    s.finish? dest (← op.arith.compute? a b)
  | .binaryLiteral op dest source literal => do
    s.finish? dest (← op.compute? (.int (← s.int? source)) (.int literal.toBitVec))
  | .reverseSubtract dest source literal => do
    s.write? dest (.int (literal.toBitVec - (← s.int? source)))
  | _ => none

def labelOf? : BodyItem → Option Label
  | .label _ label => some label
  | .instruction _ _ _ => none

def moveItem? (oracle : Oracle) (returns : Descriptor) : BodyItem → State → Option (Move State)
  | .label _ _, s => some (.next s)
  | .instruction _ _ i, s => execute? oracle returns s i

def machine (oracle : Oracle) (returns : Descriptor) (items : List BodyItem) : Machine BodyItem State :=
  ⟨items,labelOf?,moveItem? oracle returns⟩

def enter : Nat → List Number → Registers → Registers
  | _, [], s => s
  | r, value :: values, s => enter (r + value.words) values (s.write r value)

def start (item : CodeItem) (args : List Number) : State where
  registers := enter (item.registers.toNat - item.ins.toNat) args (.empty item.registers.toNat)

-- Control goes only where an instruction names a target.

variable {oracle : Oracle} {returns : Descriptor} {s t : State} {i : Instruction} {dest : Nat} {value : Number}
  {outcome : Except Ending Number} {taken : Bool} {label target : Label}

@[simp] theorem State.write_jump : s.write? dest value ≠ some (.jump label t) := by
  intro moved
  obtain ⟨registers,-,same⟩ := Option.bind_eq_some_iff.mp moved
  cases same

@[simp] theorem State.finish_jump : s.finish? dest outcome ≠ some (.jump label t) := by
  cases outcome with
  | ok value => exact State.write_jump
  | error ending => exact nofun

theorem State.branch_jump (jumps : s.branch taken target = .jump label t) : label = target := by
  cases taken <;> cases jumps
  rfl

theorem jump_target (jumps : execute? oracle returns s i = some (.jump label t)) : label ∈ i.targets := by
  cases i with
  | goto target => exact List.mem_singleton.mpr (State.branch_jump (Option.some.inj jumps))
  | packedSwitch value firstKey targets next =>
    obtain ⟨x,-,same⟩ := Option.bind_eq_some_iff.mp jumps
    rw [State.branch_jump (Option.some.inj same)]
    exact tableCase_mem _ _ _ _
  | sparseSwitch value pairs next =>
    obtain ⟨x,-,same⟩ := Option.bind_eq_some_iff.mp jumps
    rw [State.branch_jump (Option.some.inj same)]
    exact lookupCase_mem _ _ _
  | test op left right target =>
    obtain ⟨x,-,jumps⟩ := Option.bind_eq_some_iff.mp jumps
    obtain ⟨y,-,same⟩ := Option.bind_eq_some_iff.mp jumps
    exact List.mem_singleton.mpr (State.branch_jump (Option.some.inj same))
  | testZero op value target =>
    obtain ⟨x,-,same⟩ := Option.bind_eq_some_iff.mp jumps
    exact List.mem_singleton.mpr (State.branch_jump (Option.some.inj same))
  | compare op dest left right => cases op <;> simp [execute?,Option.bind_eq_some_iff] at jumps
  | invoke op args method => cases op <;> simp [execute?,Option.bind_eq_some_iff] at jumps
  | _ => simp [execute?,Option.bind_eq_some_iff] at jumps

end Restack.RegisterMachine
