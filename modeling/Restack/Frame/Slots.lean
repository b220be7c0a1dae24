import Restack.Fault

namespace Restack

-- Registers as local variable slots. The values that come in are in the highest registers and
-- belong in the lowest slots; the other registers follow them.
structure Slots where
  registers : Nat
  ins : Nat
deriving DecidableEq, Repr

namespace Slots

def ofCounts (registers ins : Nat) : Except Fault Slots :=
  if registers < ins then refuse (.insExceedFrame ins registers) else .ok ⟨registers, ins⟩

def firstIn (s : Slots) : Nat := s.registers - s.ins

def slot (s : Slots) (register : Nat) : Except Fault Nat :=
  if s.registers ≤ register then refuse (.outsideFrame register s.registers)
  else if s.firstIn ≤ register then .ok (register - s.firstIn)
  else .ok (register + s.ins)

end Slots

end Restack
