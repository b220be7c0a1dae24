import Restack.Lowering.Plan

namespace Restack.Lowering

-- Values between registers and the stack. A register that was written with
-- bits of open type is read through placeholders until some use tells the type.

def kindOf (type : Descriptor) : Except Fault Kind :=
  match type.kind? with
  | some kind => .ok kind
  | none => refuse (.registerType type)

def arrayKindOf (element : Descriptor) : Except Fault ArrayKind :=
  match element.arrayKind? with
  | some kind => .ok kind
  | none => refuse (.elementType element)

namespace State

def emit (s : State) (i : Insn) : State := { s with draft := s.draft.push (.insn i) }

def emitSite (s : State) (g : Group) (i : Insn) : State := { s with draft := s.draft.pushSite g i }

def emitAll (s : State) (insns : List Insn) : State := insns.foldl emit s

def register (s : State) (r : Nat) : Except Fault RegisterState := s.frame.get s.draft r

def resolve (s : State) (g : Group) (type : Descriptor) : Except Fault State := do
  return { s with draft := ← s.draft.resolve g type }

def setRegister (s : State) (r : Nat) (state : RegisterState) : Except Fault State := do
  return { s with frame := ← s.frame.set r state }

def arrive (s : State) (label : Label) (arrival : Arrival) : Except Fault State :=
  match s.joins.get? label.number with
  | none => .ok { s with joins := NatMap.insert label.number s.frame s.joins }
  | some stored => do
    let (stored, draft) ← stored.merge s.frame arrival s.draft
    return { s with draft, joins := NatMap.insert label.number stored s.joins }

def arriveAll (s : State) (labels : List Label) (arrival : Arrival) : Except Fault State :=
  labels.foldlM (fun s label => s.arrive label arrival) s

def discardPending (s : State) : State :=
  match s.pending with
  | none => s
  | some type => { s with pending := none }.emit (if type.isWide then .pop2 else .pop)

end State

def reinterpretation? (held want : Kind) : Option MemberRef :=
  match held, want with
  | .int, .float => some ⟨"java/lang/Float", "intBitsToFloat", "(I)F"⟩
  | .float, .int => some ⟨"java/lang/Float", "floatToRawIntBits", "(F)I"⟩
  | .long, .double => some ⟨"java/lang/Double", "longBitsToDouble", "(J)D"⟩
  | .double, .long => some ⟨"java/lang/Double", "doubleToRawLongBits", "(D)J"⟩
  | _, _ => none

def reinterpret (r : Nat) (held want : Kind) (s : State) : Except Fault State :=
  if held = want then .ok s
  else
    match reinterpretation? held want with
    | some call => .ok (s.emit (.invoke .static call))
    | none => refuse (.kindMismatch r held want)

def loadOpen (r slot : Nat) (state : RegisterState) (g : Group) (type : Descriptor) (want : Kind) (s : State) :
    Except Fault State := do
  if state.isWide ≠ type.isWide then refuse (.openWidth r state type)
  let s ← s.resolve g type
  return s.emit (.load want slot)

def load (p : Plan) (r : Nat) (type : Descriptor) (s : State) : Except Fault State := do
  let want ← kindOf type
  let slot ← p.slots.slot r
  let state ← s.register r
  match state with
  | .unknown => refuse (.readTooEarly r type)
  | .typed held => do
    let held ← kindOf held
    reinterpret r held want (s.emit (.load held slot))
  | .open32 g | .open64 g => loadOpen r slot state g type want s

def loadAsIs (p : Plan) (r : Nat) (s : State) : Except Fault (RegisterState × State) := do
  let slot ← p.slots.slot r
  let state ← s.register r
  match state with
  | .unknown => refuse (.copyTooEarly r)
  | .typed type => do
    let kind ← kindOf type
    return (state, s.emit (.load kind slot))
  | .open32 g => return (state, s.emitSite g (.load .int slot))
  | .open64 g => return (state, s.emitSite g (.load .long slot))

def store (p : Plan) (r : Nat) (type : Descriptor) (s : State) : Except Fault State := do
  let slot ← p.slots.slot r
  let kind ← kindOf type
  (s.emit (.store kind slot)).setRegister r (.typed type)

def storeAs (p : Plan) (r : Nat) (state : RegisterState) (s : State) : Except Fault State := do
  let slot ← p.slots.slot r
  match state with
  | .typed type => store p r type s
  | .open32 g => (s.emitSite g (.store .int slot)).setRegister r state
  | .open64 g => (s.emitSite g (.store .long slot)).setRegister r state
  | .unknown => refuse (.storeUnknown r)

def constant (p : Plan) (r : Nat) (value : Constant) (wide : Bool) (s : State) : Except Fault State :=
  let (g, draft) := s.draft.newGroup wide
  let s := { s with draft }.emitSite g (.const value)
  storeAs p r (if wide then .open64 g else .open32 g) s

-- Type of the array in a register and of its elements. Of an object only the opcode can tell.
def arrayTypeOf (r : Nat) (op : AccessOp) (s : State) : Except Fault (Descriptor × Descriptor) := do
  let state ← s.register r
  match state with
  | .typed (.array element) => return (.array element, element)
  | .typed (.object name) =>
    match op.implied? with
    | some element => return (.array element, element)
    | none => refuse (.notArrayType r (.object name))
  | _ => refuse (.notArray r state)

end Restack.Lowering
