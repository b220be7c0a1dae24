import Mathlib
import Restack.Proofs.Stack.Depth
import Restack.Proofs.Lowering.Traced

namespace Restack

-- The paths of a body from an event to a load of a slot, as long as nothing is stored there.

def Event.stores (slot : Nat) : Event → Bool
  | .insn (.store _ other) => other = slot
  | _ => false

namespace Code

-- An exception can come from any instruction between the labels of an entry, unless it
-- only drops a value.
inductive Throws (code : Code) : Nat → Nat → Prop where
  | raised {n m start stop : Nat} {i : Insn} {block : TryBlock} : block ∈ code.tryBlocks →
      code.position? block.start = some start → code.position? block.stop = some stop → start ≤ n → n < stop →
      code.events[n]? = some (.insn i) → i.drops = false → code.position? block.handler = some m → Throws code n m

def Flow (code : Code) (n m : Nat) : Prop := code.Edge n m ∨ code.Throws n m

inductive Reads (code : Code) (slot : Nat) (kind : Kind) : Nat → Prop where
  | here {n : Nat} : code.events[n]? = some (.insn (.load kind slot)) → Reads code slot kind n
  | later {n m : Nat} {event : Event} : code.events[n]? = some event → event.stores slot = false → code.Flow n m →
      Reads code slot kind m → Reads code slot kind n

variable {code : Code} {n m slot : Nat} {kind : Kind} {label : Label}

theorem position_event (found : code.position? label = some n) : code.events[n]? = some (.label label) := by
  obtain ⟨inside,same,-⟩ := List.findIdx?_eq_some_iff_getElem.mp found
  rw [List.getElem?_eq_getElem inside]
  simpa using same

theorem Reads.inside (reads : code.Reads slot kind n) : n < code.events.length := by
  cases reads with
  | here found => exact (List.getElem?_eq_some_iff.mp found).1
  | later found => exact (List.getElem?_eq_some_iff.mp found).1

end Code

end Restack
