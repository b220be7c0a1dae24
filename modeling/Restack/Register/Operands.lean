import Restack.Fault

namespace Restack

def twosComplement (bits n : Nat) : Int :=
  let low := n % Nat.pow 2 bits
  if low < Nat.pow 2 (bits - 1) then low else (low : Int) - Nat.pow 2 bits

structure Operands where
  registers : List Nat := []
  literal : Int := 0
  index : Nat := 0
  proto : Nat := 0
deriving DecidableEq, Repr

structure Encoded where
  opcode : Opcode
  operands : Operands
deriving DecidableEq, Repr

namespace Encoded

def units (e : Encoded) : Nat := e.opcode.format.units

def reg (e : Encoded) (i : Nat) : Nat := e.operands.registers.getD i 0

end Encoded

abbrev CodeUnits := Array UInt16

namespace CodeUnits

def unit (code : CodeUnits) (i : Nat) : Nat := (code.getD i 0).toNat

def pair (code : CodeUnits) (i : Nat) : Nat := code.unit i + 65536 * code.unit (i + 1)

def require (code : CodeUnits) (address need : Nat) (what : String) : Except Fault Unit :=
  if code.size < address + need then refuse (.truncated what address need (code.size - address)) else .ok ()

end CodeUnits

namespace Operands

-- Fields of a first unit: the high byte, its two halves.

def highByte (word : Nat) : Nat := word / 256 % 256

def lowByte (word : Nat) : Nat := word % 256

def nibble (i word : Nat) : Nat := word / Nat.pow 16 i % 16

def listed (word packed : Nat) : List Nat :=
  [nibble 0 packed, nibble 1 packed, nibble 2 packed, nibble 3 packed, nibble 2 word]

def ranged (first count : Nat) : List Nat := (List.range count).map fun i => (first + i) % 65536

def ofUnits (format : Format) (code : CodeUnits) (pc : Nat) : Operands :=
  let word := code.unit pc
  let second := code.unit (pc + 1)
  let third := code.unit (pc + 2)
  let high := highByte word
  let pairHere := [nibble 2 word, nibble 3 word]
  match format with
  | .f10x => {}
  | .f10t => { literal := twosComplement 8 high }
  | .f11n => { registers := [nibble 2 word], literal := twosComplement 4 (nibble 3 word) }
  | .f11x => { registers := [high] }
  | .f12x => { registers := pairHere }
  | .f20t => { literal := twosComplement 16 second }
  | .f21c => { registers := [high], index := second }
  | .f21ih => { registers := [high], literal := twosComplement 32 (second * 0x10000) }
  | .f21lh => { registers := [high], literal := twosComplement 64 (second * 0x1000000000000) }
  | .f21s | .f21t => { registers := [high], literal := twosComplement 16 second }
  | .f22b => { registers := [high, lowByte second], literal := twosComplement 8 (highByte second) }
  | .f22c => { registers := pairHere, index := second }
  | .f22s | .f22t => { registers := pairHere, literal := twosComplement 16 second }
  | .f22x => { registers := [high, second] }
  | .f23x => { registers := [high, lowByte second, highByte second] }
  | .f30t => { literal := twosComplement 32 (code.pair (pc + 1)) }
  | .f31c => { registers := [high], index := code.pair (pc + 1) }
  | .f31i | .f31t => { registers := [high], literal := twosComplement 32 (code.pair (pc + 1)) }
  | .f32x => { registers := [second, third] }
  | .f35c => { registers := (listed word third).take (nibble 3 word), index := second }
  | .f3rc => { registers := ranged third high, index := second }
  | .f45cc =>
    { registers := (listed word third).take (nibble 3 word), index := second, proto := code.unit (pc + 3) }
  | .f4rcc => { registers := ranged third high, index := second, proto := code.unit (pc + 3) }
  | .f51l =>
    { registers := [high], literal := twosComplement 64 (code.pair (pc + 1) + 0x100000000 * code.pair (pc + 3)) }

def isListed : Format → Bool
  | .f35c | .f45cc => true
  | _ => false

end Operands

def Encoded.decode (code : CodeUnits) (pc : Nat) : Except Fault Encoded := do
  let word := code.unit pc
  match Opcode.ofByte? (Operands.lowByte word) with
  | none => refuse (.unknownOpcode (Operands.lowByte word) pc)
  | some opcode =>
    code.require pc opcode.format.units opcode.name
    let count := Operands.nibble 3 word
    if Operands.isListed opcode.format && 5 < count then refuse (.tooManyRegisters opcode.name pc count)
    return ⟨opcode, Operands.ofUnits opcode.format code pc⟩

end Restack
