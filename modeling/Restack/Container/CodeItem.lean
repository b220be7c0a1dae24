import Restack.Bytes.Reader
import Restack.NatMap

namespace Restack

structure TryItem where
  start : UInt32
  count : UInt16
  handler : UInt16
deriving DecidableEq, Repr

namespace TryItem

def read : Reader TryItem := do
  let start ← Reader.u4
  let count ← Reader.u2
  let handler ← Reader.u2
  return ⟨start, count, handler⟩

def stop (t : TryItem) : Except Fault Nat :=
  if t.start.toNat + t.count.toNat < 0x100000000 then .ok (t.start.toNat + t.count.toNat)
  else .error ⟨.overflow, []⟩

end TryItem

structure TypedHandler where
  type : UInt32
  address : UInt32
deriving DecidableEq, Repr

structure CatchHandler where
  typed : List TypedHandler
  catchAll : Option UInt32
deriving DecidableEq, Repr

namespace CatchHandler

-- The size is the number of typed handlers; if it is not positive, a catch-all follows them.
def read : Reader CatchHandler := do
  let size ← Reader.sleb128
  let typed ← Reader.times size.toInt.natAbs do
    let type ← Reader.uleb128
    let address ← Reader.uleb128
    return TypedHandler.mk type address
  if size.toInt ≤ 0 then
    let address ← Reader.uleb128
    return ⟨typed, some address⟩
  else return ⟨typed, none⟩

def addresses (h : CatchHandler) : List Nat :=
  h.typed.map (·.address.toNat) ++ h.catchAll.toList.map UInt32.toNat

end CatchHandler

structure CodeItem where
  registers : UInt16
  ins : UInt16
  outs : UInt16
  debugInfo : UInt32
  units : Array UInt16
  tries : List TryItem
  handlers : NatMap CatchHandler
  -- The number of units is stored as a word.
  counted : units.size < 0x100000000 := by decide
deriving DecidableEq, Repr

namespace CodeItem

def handlerFor (code : CodeItem) (t : TryItem) : Option CatchHandler := code.handlers.get? t.handler.toNat

-- Handlers keyed by their offset from the start of the list, a later one replacing an earlier
-- one at the same sixteen bits.
def readHandlers (codeStart listStart : Nat) : Nat → Nat → NatMap CatchHandler → Reader (NatMap CatchHandler)
  | _, 0, found => Reader.pure found
  | i, count + 1, found => do
    let here ← Reader.offset
    let handler ← (CatchHandler.read).inContext (.catchHandler i codeStart)
    readHandlers codeStart listStart (i + 1) count (NatMap.insert ((here - listStart) % 65536) handler found)

def checkTries (codeStart units : Nat) (handlers : NatMap CatchHandler) : List TryItem → Except Fault Unit
  | [] => .ok ()
  | t :: rest => do
    if !handlers.contains t.handler.toNat then
      reject (.missingHandler t.start.toNat t.handler.toNat codeStart)
    if units < (← t.stop) then reject (.tryPastEnd t.start.toNat codeStart)
    checkTries codeStart units handlers rest

-- Tries and handlers. An odd number of code units is followed by a unit of padding.
def readTries (codeStart units tries : Nat) : Reader (List TryItem × NatMap CatchHandler) := do
  if tries = 0 then return ([], [])
  else
    if units % 2 = 1 then
      let _padding ← Reader.u2
    let tries ← Reader.times tries TryItem.read
    let listStart ← Reader.offset
    let count ← Reader.uleb128
    let handlers ← readHandlers codeStart listStart 0 count.toNat []
    checkTries codeStart units handlers tries
    return (tries, handlers)

def read : Reader CodeItem := do
  let start ← Reader.offset
  let registers ← Reader.u2
  let ins ← Reader.u2
  let outs ← Reader.u2
  let tries ← Reader.u2
  let debugInfo ← Reader.u4
  if registers.toNat < ins.toNat then
    (reject (.insExceedRegisters ins.toNat registers.toNat start) : Except Fault Unit)
  let count ← Reader.u4
  let here ← Reader.offset
  let available ← Reader.size
  if available < here + count.toNat * 2 then (reject (.codePastEnd start) : Except Fault Unit)
  let units ← Reader.exactly Reader.u2 count.toNat
  let (tries, handlers) ← readTries start count.toNat tries.toNat
  return {
    registers, ins, outs, debugInfo, units := units.val.toArray, tries, handlers,
    counted := Nat.lt_of_le_of_lt (Nat.le_of_eq units.property) count.toNat_lt }

end CodeItem

end Restack
