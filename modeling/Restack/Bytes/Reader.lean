import Restack.Fault
import Restack.Bytes.Leb128

namespace Restack

abbrev Bytes := Array UInt8

def Reader (α : Type) : Type := Bytes → Nat → Except Fault (α × Nat)

namespace Reader

variable {α β : Type}

def valueAt (r : Reader α) (bytes : Bytes) (offset : Nat) : Except Fault α :=
  match r bytes offset with
  | .ok (value, _) => .ok value
  | .error f => .error f

def pure (value : α) : Reader α := fun _ offset => .ok (value, offset)

def bind (r : Reader α) (next : α → Reader β) : Reader β := fun bytes offset =>
  match r bytes offset with
  | .ok (value, offset) => next value bytes offset
  | .error f => .error f

instance : Monad Reader where
  pure := Reader.pure
  bind := Reader.bind

def lift (result : Except Fault α) : Reader α := fun _ offset =>
  match result with
  | .ok value => .ok (value, offset)
  | .error f => .error f

instance : MonadLift (Except Fault) Reader where
  monadLift := Reader.lift

def offset : Reader Nat := fun _ offset => .ok (offset, offset)

def size : Reader Nat := fun bytes offset => .ok (bytes.size, offset)

def elsewhere (place : Nat) (r : Reader α) : Reader α := fun bytes offset =>
  match r bytes place with
  | .ok (value, _) => .ok (value, offset)
  | .error f => .error f

def inContext (c : Context) (r : Reader α) : Reader α := fun bytes offset => within c (r bytes offset)

def word (format : WordFormat) (width : Nat) : Reader Nat := fun bytes offset =>
  if bytes.size < offset + width then reject (.endOfStream format offset)
  else .ok (littleEndian (bytes.extract offset (offset + width)).toList, offset + width)

def u1 : Reader UInt8 := do return UInt8.ofNat (← word .u1 1)

def u2 : Reader UInt16 := do return UInt16.ofNat (← word .u2 2)

def u4 : Reader UInt32 := do return UInt32.ofNat (← word .u4 4)

def lebWindow (bytes : Bytes) (offset : Nat) : List UInt8 :=
  (bytes.extract offset (offset + Leb128.maxBytes)).toList

def unsignedLeb (format : WordFormat) : Reader UInt32 := fun bytes offset =>
  match Leb128.decode (lebWindow bytes offset) with
  | some (value, length) => .ok (value, offset + length)
  | none => reject (.endOfStream format offset)

def uleb128 : Reader UInt32 := unsignedLeb .uleb128

def sleb128 : Reader Int32 := fun bytes offset =>
  match Leb128.decodeSigned (lebWindow bytes offset) with
  | some (value, length) => .ok (value, offset + length)
  | none => reject (.endOfStream .sleb128 offset)

-- One less than an encoded word, as a signed word. The least signed word has no predecessor.
def predecessor (n : UInt32) : Except Fault Int32 :=
  if n.toNat = 0x80000000 then .error ⟨.overflow, []⟩ else .ok (n.toInt32 - 1)

-- An optional index: one more than it, or zero. Absent and unusable ones come out negative.
def uleb128p1 : Reader Int32 := do predecessor (← unsignedLeb .uleb128p1)

def take (length : Nat) : Reader (List UInt8) := fun bytes offset =>
  if bytes.size < offset + length then reject (.shortBuffer length offset)
  else .ok ((bytes.extract offset (offset + length)).toList, offset + length)

def timesFrom (r : Nat → Reader α) : Nat → Nat → Reader (List α)
  | _, 0 => pure []
  | i, count + 1 => do
    let first ← r i
    let rest ← timesFrom r (i + 1) count
    return first :: rest

def times (count : Nat) (r : Reader α) : Reader (List α) := timesFrom (fun _ => r) 0 count

-- As many as asked for, with the proof that they are.
def exactly (r : Reader α) : (count : Nat) → Reader { items : List α // items.length = count }
  | 0 => pure ⟨[], rfl⟩
  | count + 1 => do
    let first ← r
    let rest ← exactly r count
    return ⟨first :: rest.val, congrArg (· + 1) rest.property⟩

end Reader

end Restack
