import Restack.Body.Payload

namespace Restack

-- A body is walked from address zero: at each address stands an instruction or
-- a data block, and the next one starts where it ends. Both passes over a body
-- follow the same walk, so what one skips the other skips.

inductive Block where
  | data (address units : Nat)
  | instruction (address : Nat) (encoded : Encoded)
deriving DecidableEq, Repr

namespace Block

def address : Block → Nat
  | .data address _ => address
  | .instruction address _ => address

def units : Block → Nat
  | .data _ units => units
  | .instruction _ encoded => encoded.units

end Block

structure Walk where
  blocks : List Block
  ending : Except Fault Nat

namespace Walk

def step (code : CodeUnits) (pc : Nat) : Except Fault Block := do
  match ← Payload.block? code pc with
  | some (_, units) => return .data pc units
  | none => return .instruction pc (← Encoded.decode code pc)

def cons (block : Block) (walk : Walk) : Walk := { walk with blocks := block :: walk.blocks }

-- Walks on from `pc`. A block takes at least one unit, so `fuel` need not exceed the number
-- of units.
def go (code : CodeUnits) : Nat → Nat → Walk
  | 0, pc => ⟨[], .ok pc⟩
  | fuel + 1, pc =>
    if pc < code.size then
      match step code pc with
      | .error f => ⟨[], .error f⟩
      | .ok block => cons block (go code fuel (pc + block.units))
    else ⟨[], .ok pc⟩

def ofCode (code : CodeUnits) : Walk := go code code.size 0

def starts (walk : Walk) : List Nat :=
  walk.blocks.filterMap fun block =>
    match block with
    | .instruction address _ => some address
    | .data .. => none

end Walk

end Restack
