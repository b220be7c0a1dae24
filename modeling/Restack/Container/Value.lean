import Restack.Bytes.Reader

namespace Restack

-- Encoded values: a header byte with the type and the number of bytes that
-- follow. Numbers drop the bytes that sign or zero extension brings back,
-- floating-point values the zero bytes at their low end.

-- A value as a container stores it. References are pool indices, floating-point values bit
-- patterns.
inductive Value where
  | byte (value : Int8)
  | short (value : Int16)
  | char (value : UInt16)
  | int (value : Int32)
  | long (value : Int64)
  | float (bits : UInt32)
  | double (bits : UInt64)
  | methodType (index : UInt32)
  | methodHandle (index : UInt32)
  | string (index : UInt32)
  | type (index : UInt32)
  | field (index : UInt32)
  | method (index : UInt32)
  | enum (index : UInt32)
  | array (items : List Value)
  | annot (type : UInt32) (elements : List (UInt32 × Value))
  | null
  | boolean (value : Bool)

structure Annot where
  type : UInt32
  elements : List (UInt32 × Value)

namespace Value

def signExtend (size n : Nat) : Int :=
  if n < Nat.pow 2 (8 * size - 1) then n else (n : Int) - Nat.pow 2 (8 * size)

def maxSize? (type : Nat) : Option Nat :=
  match type with
  | 0x00 => some 1
  | 0x02 | 0x03 => some 2
  | 0x04 | 0x10 | 0x15 | 0x16 | 0x17 | 0x18 | 0x19 | 0x1a | 0x1b => some 4
  | 0x06 | 0x11 => some 8
  | _ => none

def ofBytes? (type size n : Nat) : Option Value :=
  match type with
  | 0x00 => some (.byte (Int8.ofInt (signExtend size n)))
  | 0x02 => some (.short (Int16.ofInt (signExtend size n)))
  | 0x03 => some (.char (UInt16.ofNat n))
  | 0x04 => some (.int (Int32.ofInt (signExtend size n)))
  | 0x06 => some (.long (Int64.ofInt (signExtend size n)))
  | 0x10 => some (.float (UInt32.ofNat (n * Nat.pow 2 (8 * (4 - size)))))
  | 0x11 => some (.double (UInt64.ofNat (n * Nat.pow 2 (8 * (8 - size)))))
  | 0x15 => some (.methodType (UInt32.ofNat n))
  | 0x16 => some (.methodHandle (UInt32.ofNat n))
  | 0x17 => some (.string (UInt32.ofNat n))
  | 0x18 => some (.type (UInt32.ofNat n))
  | 0x19 => some (.field (UInt32.ofNat n))
  | 0x1a => some (.method (UInt32.ofNat n))
  | 0x1b => some (.enum (UInt32.ofNat n))
  | _ => none

def elementsWith (value : Reader Value) : Reader (List (UInt32 × Value)) := do
  let count ← Reader.uleb128
  Reader.times count.toNat do
    let name ← Reader.uleb128
    let value ← value
    return (name, value)

def itemsWith (value : Reader Value) : Reader (List Value) := do
  let count ← Reader.uleb128
  Reader.times count.toNat value

-- A value nested at most `depth` deep. Each level takes a byte of its own, so with as many
-- levels as there are bytes left the depth runs out only where the bytes do.
def readNested : Nat → Reader Value
  | 0 => fun _ offset => reject (.endOfStream .u1 offset)
  | depth + 1 => do
    let start ← Reader.offset
    let header ← Reader.u1
    let type := header.toNat % 32
    let arg := header.toNat / 32
    match type with
    | 0x1c => return .array (← itemsWith (readNested depth))
    | 0x1d =>
      let annotType ← Reader.uleb128
      return .annot annotType (← elementsWith (readNested depth))
    | 0x1e => return .null
    | 0x1f => return .boolean (arg ≠ 0)
    | _ =>
      match maxSize? type with
      | none => (reject (.unknownValueType type start) : Except Fault Value)
      | some limit =>
        if limit < arg + 1 then (reject (.valueTooWide type (arg + 1) start) : Except Fault Value)
        else
          let bytes ← Reader.times (arg + 1) Reader.u1
          match ofBytes? type (arg + 1) (littleEndian bytes) with
          | some value => return value
          | none => (reject (.unknownValueType type start) : Except Fault Value)

def depthAt (bytes : Bytes) (offset : Nat) : Nat := bytes.size - offset

def read : Reader Value := fun bytes offset => readNested (depthAt bytes offset) bytes offset

def readArray : Reader (List Value) := fun bytes offset =>
  itemsWith (readNested (depthAt bytes offset)) bytes offset

def annot? : Value → Option Annot
  | .annot index elements => some ⟨index, elements⟩
  | _ => none

end Value

namespace Annot

def read : Reader Annot := fun bytes offset => Reader.bind Reader.uleb128
  (fun type => Reader.bind (Value.elementsWith (Value.readNested (Value.depthAt bytes offset)))
    (fun elements => Reader.pure ⟨type, elements⟩)) bytes offset

end Annot

end Restack
