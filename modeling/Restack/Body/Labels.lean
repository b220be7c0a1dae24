import Restack.Container.CodeItem
import Restack.Body.Walk

namespace Restack

structure LabelEntry where
  label : Label
  jumpTarget : Bool := false
  payload : Option Payload := none
deriving DecidableEq, Repr

structure LabelTable where
  entries : NatMap LabelEntry
  starts : List Nat
  stop : Nat
  next : UInt32
deriving DecidableEq, Repr

namespace LabelTable

def entry? (t : LabelTable) (address : Nat) : Option LabelEntry := t.entries.get? address

def labelAt? (t : LabelTable) (address : Nat) : Option Label := (t.entry? address).map LabelEntry.label

def fresh (t : LabelTable) : Label × LabelTable := (⟨t.next.toNat⟩, { t with next := t.next + 1 })

def obtain (t : LabelTable) (address : Nat) : Label × LabelTable :=
  match t.entry? address with
  | some entry => (entry.label, t)
  | none =>
    let (label, t) := t.fresh
    (label, { t with entries := NatMap.insert address ⟨label, false, none⟩ t.entries })

def ensure (t : LabelTable) (address : Nat) : LabelTable := (t.obtain address).2

def markJump (t : LabelTable) (address : Nat) : LabelTable :=
  let t := t.ensure address
  { t with entries := NatMap.adjust address (fun entry => { entry with jumpTarget := true }) t.entries }

def setPayload (t : LabelTable) (address : Nat) (payload : Payload) : LabelTable :=
  let t := t.ensure address
  { t with entries := NatMap.adjust address (fun entry => { entry with payload := some payload }) t.entries }

def isStart (t : LabelTable) (address : Nat) : Bool := t.starts.contains address

def snap (t : LabelTable) (address : Nat) : Nat := (t.starts.find? (address ≤ ·)).getD t.stop

-- The label after the code. A table without one has the largest word there.
def stopLabel (t : LabelTable) : Label := (t.labelAt? t.stop).getD ⟨0xffffffff⟩

end LabelTable

structure PayloadUse where
  user : Nat
  kind : PayloadKind
  address : Nat
deriving DecidableEq, Repr

structure CodeReferences where
  targets : List Nat := []
  payloads : List PayloadUse := []
deriving DecidableEq, Repr

namespace CodeReferences

def payloadKind : Operation → PayloadKind
  | .packedSwitch => .packedSwitch
  | .sparseSwitch => .sparseSwitch
  | _ => .arrayData

-- References of one block. The address after a switch is its default target.
def ofBlock (codeSize : Nat) : Block → Except Fault CodeReferences
  | .data .. => .ok {}
  | .instruction pc e =>
    match e.opcode.format with
    | .f10t | .f20t | .f30t | .f21t | .f22t => do
      return { targets := [← Payload.target pc e.operands.literal codeSize] }
    | .f31t => do
      let address ← Payload.target pc e.operands.literal codeSize
      if codeSize ≤ address then refuse (.payloadPastCode pc)
      let next := if e.opcode.operation = .fillArrayData then [] else [pc + e.units]
      return { targets := next, payloads := [⟨pc, payloadKind e.opcode.operation, address⟩] }
    | _ => .ok {}

def ofWalk (codeSize : Nat) (walk : Walk) : Except Fault CodeReferences := do
  let found ← walk.blocks.mapM (ofBlock codeSize)
  let stop ← walk.ending
  if stop ≠ codeSize then refuse .lastPayloadPastCode
  return ⟨found.flatMap targets, found.flatMap payloads⟩

end CodeReferences

namespace LabelTable

def attach (code : CodeUnits) (t : LabelTable) (use : PayloadUse) : Except Fault (LabelTable × List Nat) := do
  let payload ← Payload.parse code use.address use.user
  if payload.kind ≠ use.kind then refuse (.wrongPayload use.user use.kind use.address payload.kind)
  return (t.setPayload use.address payload, payload.targets)

def attachAll (code : CodeUnits) : LabelTable → List PayloadUse → Except Fault (LabelTable × List Nat)
  | t, [] => .ok (t, [])
  | t, use :: rest => do
    let (t, here) ← attach code t use
    let (t, further) ← attachAll code t rest
    return (t, here ++ further)

def markTarget (t : LabelTable) (address : Nat) : Except Fault LabelTable :=
  if address ≠ t.stop && !t.isStart address then refuse (.targetNotInstruction address)
  else .ok (t.markJump address)

def markHandler (t : LabelTable) (address : Nat) : Except Fault LabelTable :=
  if !t.isStart address then refuse (.handlerNotInstruction address) else .ok (t.markJump address)

-- Labels the ends of a range and its handlers. A range may end where a data block begins.
def markTry (code : CodeItem) (t : LabelTable) (item : TryItem) : Except Fault LabelTable := do
  if !t.isStart item.start.toNat then refuse (.tryNotInstruction item.start.toNat)
  let stop ← item.stop
  if t.stop < stop then refuse (.tryPastCode item.start.toNat)
  let t := t.ensure item.start.toNat
  let t := t.ensure (t.snap stop)
  match code.handlerFor item with
  | none => return t
  | some handler => handler.addresses.foldlM markHandler t

def empty (walk : Walk) (codeSize : Nat) : LabelTable :=
  { entries := [], starts := walk.starts, stop := codeSize, next := 0 }

def scan (code : CodeItem) : Except Fault LabelTable := do
  let walk := Walk.ofCode code.units
  let references ← CodeReferences.ofWalk code.units.size walk
  let t := (empty walk code.units.size).ensure 0
  let (t, cases) ← attachAll code.units t references.payloads
  let t ← (references.targets ++ cases).foldlM markTarget t
  let t ← code.tries.foldlM (markTry code) t
  return t.ensure t.stop

end LabelTable

end Restack
