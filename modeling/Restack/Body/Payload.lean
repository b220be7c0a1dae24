import Restack.Register.Operands

namespace Restack

inductive Payload where
  | packedSwitch (firstKey : Int32) (targets : List Nat)
  | sparseSwitch (keys : List Int32) (targets : List Nat)
  | arrayData (data : ArrayData)
deriving DecidableEq, Repr

namespace Payload

def kind : Payload → PayloadKind
  | .packedSwitch .. => .packedSwitch
  | .sparseSwitch .. => .sparseSwitch
  | .arrayData _ => .arrayData

def targets : Payload → List Nat
  | .packedSwitch _ targets | .sparseSwitch _ targets => targets
  | .arrayData _ => []

def kindOf? (word : Nat) : Option PayloadKind :=
  if word = 0x0100 then some .packedSwitch
  else if word = 0x0200 then some .sparseSwitch
  else if word = 0x0300 then some .arrayData
  else none

def headUnits : PayloadKind → Nat
  | .packedSwitch | .sparseSwitch => 2
  | .arrayData => 4

def dataBytes (code : CodeUnits) (address : Nat) : Nat := code.unit (address + 1) * code.pair (address + 2)

def length (kind : PayloadKind) (code : CodeUnits) (address : Nat) : Nat :=
  match kind with
  | .packedSwitch => 4 + code.unit (address + 1) * 2
  | .sparseSwitch => 2 + code.unit (address + 1) * 4
  | .arrayData => 4 + (dataBytes code address + 1) / 2

def block? (code : CodeUnits) (address : Nat) : Except Fault (Option (PayloadKind × Nat)) :=
  match kindOf? (code.unit address) with
  | none => .ok none
  | some kind => do
    code.require address (headUnits kind) kind.text
    return some (kind, length kind code address)

def target (pc : Nat) (distance : Int) (codeSize : Nat) : Except Fault Nat :=
  let address := (pc : Int) + distance
  if address < 0 || (codeSize : Int) < address then refuse (.targetOutside address pc) else .ok address.toNat

def numbers (code : CodeUnits) (address count : Nat) : List Int :=
  (List.range count).map fun i => twosComplement 32 (code.pair (address + i * 2))

def isAscending : List Int → Bool
  | a :: b :: rest => a < b && isAscending (b :: rest)
  | _ => true

def unitBytes (code : CodeUnits) (address count : Nat) : List UInt8 :=
  (List.range count).flatMap fun i =>
    let word := code.unit (address + i)
    [UInt8.ofNat (word % 256), UInt8.ofNat (word / 256)]

-- The block at an address, as the instruction at `user` sees it: switch targets are distances
-- from that instruction.
def parse (code : CodeUnits) (address user : Nat) : Except Fault Payload := do
  match ← block? code address with
  | none => refuse (.noPayload address user)
  | some (kind, units) =>
    code.require address units "payload"
    let count := code.unit (address + 1)
    let targets (start : Nat) := (numbers code start count).mapM fun d => target user d code.size
    match kind with
    | .packedSwitch =>
      let firstKey := Int32.ofInt (twosComplement 32 (code.pair (address + 2)))
      return .packedSwitch firstKey (← targets (address + 4))
    | .sparseSwitch =>
      let keys := numbers code (address + 2) count
      if !isAscending keys then refuse (.unsortedKeys address)
      return .sparseSwitch (keys.map Int32.ofInt) (← targets (address + 2 + count * 2))
    | .arrayData =>
      let bytes := (unitBytes code (address + 4) (units - 4)).take (dataBytes code address)
      return .arrayData ⟨count, bytes⟩

end Payload

end Restack
