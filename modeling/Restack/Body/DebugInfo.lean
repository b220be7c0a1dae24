import Restack.Body.Labels
import Restack.Container.Basic

namespace Restack

-- Debug information is a program. It moves an address and a line number
-- forward, and says at which addresses registers begin and cease to hold
-- variables.

structure Variable where
  name : String
  descriptor : String
  signature : Option String
deriving DecidableEq, Repr

structure LocalScope where
  register : Nat
  var : Variable
  start : Label
  stop : Label
deriving DecidableEq, Repr

structure LineNumber where
  line : Nat
  sourceFile : Option String
  label : Label
deriving DecidableEq, Repr

structure DebugInfo where
  parameterNames : List (Option String)
  locals : List LocalScope
  lines : List LineNumber
deriving DecidableEq, Repr

inductive DebugOp where
  | endSequence
  | advanceAddress (delta : Nat)
  | advanceLine (delta : Int)
  | startLocal (register : Nat) (var : Option Variable)
  | endLocal (register : Nat)
  | restartLocal (register : Nat)
  | mark
  | setFile (file : Option String)
  | special (opcode : Nat)
deriving DecidableEq, Repr

namespace DebugOp

def firstSpecial : Nat := 0x0a

def lineBase : Int := -4

def lineRange : Nat := 15

def addressStep (opcode : Nat) : Nat := (opcode - firstSpecial) / lineRange

def lineStep (opcode : Nat) : Int := lineBase + ((opcode - firstSpecial) % lineRange : Nat)

def optionalName (lookup : UInt32 → Except Fault String) : Reader (Option String) := do
  let index ← Reader.uleb128p1
  if index < 0 then return none
  else
    let name ← lookup index.toUInt32
    return some name

def register : Reader Nat := do return (← Reader.uleb128).toNat % 65536

def readStartLocal (c : Container) (extended : Bool) : Reader DebugOp := do
  let register ← register
  let name ← optionalName c.string
  let descriptor ← optionalName c.type
  let signature ← if extended then optionalName c.string else Reader.pure none
  match name, descriptor with
  | some name, some descriptor => return .startLocal register (some { name, descriptor, signature })
  | _, _ => return .startLocal register none

def read (c : Container) : Reader DebugOp := do
  let opcode ← Reader.u1
  match opcode.toNat with
  | 0x00 => return .endSequence
  | 0x01 => return .advanceAddress (← Reader.uleb128).toNat
  | 0x02 => return .advanceLine (← Reader.sleb128).toInt
  | 0x03 => readStartLocal c false
  | 0x04 => readStartLocal c true
  | 0x05 => return .endLocal (← register)
  | 0x06 => return .restartLocal (← register)
  | 0x07 | 0x08 => return .mark
  | 0x09 => return .setFile (← optionalName c.string)
  | value => return .special value

end DebugOp

structure DebugState where
  address : Nat := 0
  line : Int
  file : Option String
  -- What registers hold now; scopes without a variable are kept so that they can be ended.
  held : NatMap (Option (Variable × Label)) := []
  closed : NatMap Variable := []
  labels : LabelTable
  locals : List LocalScope := []
  lines : List LineNumber := []

namespace DebugState

-- Debug addresses that are no instruction move on to the next one, or back to the end.
def placed (t : LabelTable) (address : Nat) : Nat :=
  if t.stop < address then t.stop
  else if address ≠ t.stop && !t.isStart address then t.snap address
  else address

def here (s : DebugState) : Label × DebugState :=
  let (label, labels) := s.labels.obtain (placed s.labels s.address)
  (label, { s with labels })

def close (s : DebugState) (register : Nat) (scope : Option (Variable × Label)) (stop : Label) : DebugState :=
  match scope with
  | none => s
  | some (var, start) =>
    { s with
      locals := s.locals ++ [{ register, var, start, stop }]
      closed := NatMap.insert register var s.closed }

def closeHeld (s : DebugState) (register : Nat) (stop : Label) : DebugState :=
  match s.held.get? register with
  | none => s
  | some scope => close { s with held := s.held.erase register } register scope stop

def hold (s : DebugState) (register : Nat) (scope : Option (Variable × Label)) : DebugState :=
  { s with held := NatMap.insert register scope s.held }

def startLocal (s : DebugState) (register : Nat) (var : Option Variable) : DebugState :=
  let (label, s) := s.here
  (s.closeHeld register label).hold register (var.map (·, label))

def endLocal (s : DebugState) (register : Nat) : Except Fault DebugState :=
  if s.held.contains register then
    let (label, s) := s.here
    .ok (s.closeHeld register label)
  else refuse (.debugNoLocal register s.address)

def restartLocal (s : DebugState) (register : Nat) : DebugState :=
  match s.closed.get? register with
  | none => s
  | some var =>
    let (label, s) := s.here
    (s.closeHeld register label).hold register (some (var, label))

def special (s : DebugState) (opcode : Nat) : Except Fault DebugState := do
  let address := s.address + DebugOp.addressStep opcode
  if 0x100000000 ≤ address then refuse (.debugSpecialOverflow opcode s.address)
  let line := s.line + DebugOp.lineStep opcode
  if line < 0 || 0x100000000 ≤ line then refuse (.debugBadLine line address)
  let (label, s) := { s with address, line }.here
  return { s with lines := s.lines ++ [⟨line.toNat, s.file, label⟩] }

def closeAll (s : DebugState) : DebugState :=
  s.held.foldl (fun state pair => state.closeHeld pair.1 s.labels.stopLabel) s

def step (s : DebugState) : DebugOp → Except Fault DebugState
  | .endSequence => .ok s.closeAll
  | .advanceAddress delta =>
    if 0x100000000 ≤ s.address + delta then refuse (.debugAddressOverflow delta s.address)
    else .ok { s with address := s.address + delta }
  | .advanceLine delta => .ok { s with line := s.line + delta }
  | .startLocal register var => .ok (s.startLocal register var)
  | .endLocal register => s.endLocal register
  | .restartLocal register => .ok (s.restartLocal register)
  | .mark => .ok s
  | .setFile file => .ok { s with file }
  | .special opcode => s.special opcode

-- Runs a program to its end. Every step takes a byte, so `fuel` need not exceed their number.
def run (c : Container) : Nat → DebugState → Reader DebugState
  | 0, _ => (refuse .debugUnterminated : Except Fault DebugState)
  | fuel + 1, s => do
    let offset ← Reader.offset
    let available ← Reader.size
    if available ≤ offset then (refuse .debugUnterminated : Except Fault DebugState)
    else
      let op ← DebugOp.read c
      let next ← s.step op
      if op = .endSequence then return next else run c fuel next

end DebugState

namespace DebugInfo

def readProgram (c : Container) (sourceFile : Option String) (labels : LabelTable) :
    Reader (DebugInfo × LabelTable) := do
  let line ← Reader.uleb128
  let count ← Reader.uleb128
  let parameterNames ← Reader.times count.toNat (DebugOp.optionalName c.string)
  let offset ← Reader.offset
  let available ← Reader.size
  let s ← DebugState.run c (available - offset) { line := line.toNat, file := sourceFile, labels }
  return ({ parameterNames, locals := s.locals, lines := s.lines }, s.labels)

-- A method can do without its debug information, so what is malformed in it concerns the method only.
def asInexpressible (f : Fault) : Fault :=
  match f.cause with
  | .malformed cause => ⟨.inexpressible (.badDebugInfo cause f.contexts), []⟩
  | _ => f

def read (c : Container) (offset : UInt32) (sourceFile : Option String) (labels : LabelTable) :
    Except Fault (DebugInfo × LabelTable) :=
  within (.debugInfo offset.toNat)
    (match (readProgram c sourceFile labels).valueAt c.bytes offset.toNat with
    | .ok result => .ok result
    | .error f => .error (asInexpressible f))

end DebugInfo

end Restack
