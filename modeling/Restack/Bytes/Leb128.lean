namespace Restack.Leb128

-- LEB128 as containers use it: seven bits a byte, lowest group first, the high bit set on every byte
-- but the last, and never more than five bytes. A fifth byte ends the number whatever its high bit
-- says.

def maxBytes : Nat := 5

-- Bits from the 32nd on have no place in a word.
def place (value : UInt32) (b : UInt8) (shift : UInt32) : UInt32 :=
  if shift < 32 then value ||| ((b &&& 0x7F).toUInt32 <<< shift) else value

-- The last group's highest bit is the sign. Five groups leave no room for copies of it.
def extend (value : UInt32) (last : UInt8) (shift : UInt32) : UInt32 :=
  if last &&& 0x40 ≠ 0 ∧ shift < 32 then value ||| (0xFFFFFFFF <<< shift) else value

def loop (close : UInt32 → UInt8 → UInt32 → UInt32) (value shift : UInt32) (count : Nat) :
    List UInt8 → Option (UInt32 × Nat)
  | [] => none
  | b :: rest =>
    let value := place value b shift
    let shift := shift + 7
    if b &&& 0x80 = 0 ∨ count + 1 = maxBytes then some (close value b shift, count + 1)
    else loop close value shift (count + 1) rest

-- The number at the start of the bytes and how many bytes it takes.
def decode (bytes : List UInt8) : Option (UInt32 × Nat) := loop (fun value _ _ => value) 0 0 0 bytes

def decodeSigned (bytes : List UInt8) : Option (Int32 × Nat) :=
  (loop extend 0 0 0 bytes).map fun (value, count) => (value.toInt32, count)

end Restack.Leb128
