import Restack.Lowering.Operand

namespace Restack.Lowering

-- One register instruction after the other becomes stack instructions.

def object : Descriptor := .object "java/lang/Object"

def fieldRef (f : FieldReference) : MemberRef := ⟨f.owner.internalName, f.name, f.type.text⟩

def move (p : Plan) (kind : MoveKind) (dest source : Nat) (s : State) : Except Fault State := do
  let s ←
    if kind = .object then do
      match (← s.register source).group? with
      | some g => s.resolve g object
      | none => pure s
    else pure s
  let (state, s) ← loadAsIs p source s
  let wide := decide (kind = .wide)
  if state.isWide ≠ wide then refuse (.moveWidth wide source state)
  storeAs p dest state s

def takePending (s : State) : Option (Descriptor × State) :=
  s.pending.map fun type => (type, { s with pending := none })

def moveResult (p : Plan) (kind : MoveKind) (dest : Nat) (s : State) : Except Fault State :=
  match takePending s with
  | none => refuse (.noResult dest)
  | some (type, s) =>
    if type.isWide ≠ decide (kind = .wide) || type.isReference ≠ decide (kind = .object) then
      refuse (.resultWidth type)
    else store p dest type s

def moveException (p : Plan) (dest : Nat) (s : State) : Except Fault State :=
  match takePending s with
  | none => refuse (.noException dest)
  | some (type, s) => store p dest type s

def compareInsn : CompareOp → Insn
  | .long => .compareLong
  | .lessFloat => .compareFloat .less
  | .greaterFloat => .compareFloat .greater
  | .lessDouble => .compareDouble .less
  | .greaterDouble => .compareDouble .greater

def referenceType? : RegisterState → Option Descriptor
  | .typed type => if type.isReference then some type else none
  | _ => none

def jumpOn (condition : Condition) (target : Label) (s : State) : Except Fault State := do
  let s ← s.arrive target .branch
  return s.emit (.jump condition target)

def jumpOnOpen (g : Group) (condition : Condition) (target : Label) (s : State) : Except Fault State := do
  let s ← s.arrive target .branch
  return s.emitSite g (.jump condition target)

def sameCondition (op : TestOp) : Condition := if op = .equal then .sameReference else .otherReference

def nullCondition (op : TestOp) : Condition := if op = .equal then .null else .nonNull

-- Compares two registers. If one is a reference both are; if both are open they have one type,
-- and the jump waits for it.
def test (p : Plan) (op : TestOp) (left right : Nat) (target : Label) (s : State) : Except Fault State := do
  let a ← s.register left
  let b ← s.register right
  match (referenceType? a).or (referenceType? b) with
  | some type =>
    if !op.isEquality then refuse (.orderOfReferences op left right)
    let s ← load p left type s
    let s ← load p right type s
    jumpOn (sameCondition op) target s
  | none =>
    let ints : Except Fault State := do
      let s ← load p left .int s
      let s ← load p right .int s
      jumpOn (.ints op.comparison) target s
    match a.group?, b.group? with
    | some ga, some gb =>
      if op.isEquality && !a.isWide && !b.isWide then
        let (g, draft) := s.draft.union ga gb
        let (_, s) ← loadAsIs p left { s with draft }
        let (_, s) ← loadAsIs p right s
        jumpOnOpen g (.ints op.comparison) target s
      else ints
    | _, _ => ints

def testZero (p : Plan) (op : TestOp) (r : Nat) (target : Label) (s : State) : Except Fault State := do
  let state ← s.register r
  let int : Except Fault State := do
    let s ← load p r .int s
    jumpOn (.zero op.comparison) target s
  match state with
  | .typed type =>
    if type.isReference then
      if !op.isEquality then refuse (.orderOfReference op r)
      let s ← load p r type s
      jumpOn (nullCondition op) target s
    else int
  | .open32 g =>
    if op.isEquality then
      let (_, s) ← loadAsIs p r s
      jumpOnOpen g (.zero op.comparison) target s
    else int
  | _ => int

-- Pushes arguments from the registers of a call, the next one being at a position among them.
-- A wide argument takes two.
def loadArguments (p : Plan) (registers : List Nat) (missing : Inexpressible) :
    List Descriptor → Nat → State → Except Fault (Nat × State)
  | [], next, s => .ok (next, s)
  | type :: types, next, s =>
    match registers[next]? with
    | none => refuse missing
    | some r => do
      let s ← load p r type s
      loadArguments p registers missing types (next + type.slots) s

def loadReceiver (p : Plan) (op : InvokeOp) (registers : List Nat) (missing : Inexpressible) (owner : Descriptor)
    (s : State) : Except Fault (Nat × State) :=
  if op = .static then .ok (0, s)
  else
    match registers.head? with
    | none => refuse missing
    | some r => do return (1, ← load p r owner s)

def invoke (p : Plan) (op : InvokeOp) (registers : List Nat) (m : MethodReference) (s : State) :
    Except Fault State := do
  let missing : Inexpressible := .missingArguments op m.owner m.name
  let (next, s) ← loadReceiver p op registers missing m.owner s
  let (next, s) ← loadArguments p registers missing m.signature.args next s
  if next ≠ registers.length then refuse (.argumentCount op registers.length m.name m.signature)
  let s := s.emit (.invoke op.dispatch ⟨m.owner.internalName, m.name, m.signature.text⟩)
  return if m.signature.result = .void then s else { s with pending := some m.signature.result }

def unaryInsns (op : UnaryOp) (source result : Kind) : List Insn :=
  match op with
  | .negInt | .negLong | .negFloat | .negDouble => [.arith .neg source]
  | .notInt => [.const (.int (-1)), .arith .xor .int]
  | .notLong => [.const (.long (-1)), .arith .xor .long]
  | .intToByte => [.narrow .byte]
  | .intToChar => [.narrow .char]
  | .intToShort => [.narrow .short]
  | _ => [.convert source result]

def unary (p : Plan) (op : UnaryOp) (dest source : Nat) (s : State) : Except Fault State := do
  let s ← load p source op.operand s
  let insns := unaryInsns op (← kindOf op.operand) (← kindOf op.result)
  store p dest op.result (s.emitAll insns)

def binary (p : Plan) (op : BinaryOp) (dest left right : Nat) (s : State) : Except Fault State := do
  let kind ← kindOf op.type
  let s ← load p left op.type s
  let s ← load p right (if op.isShift then .int else op.type) s
  store p dest op.type (s.emit (.arith op.arith kind))

def fillElements (p : Plan) (element : Descriptor) (kind : ArrayKind) : Nat → List Nat → State → Except Fault State
  | _, [], s => .ok s
  | i, r :: registers, s => do
    let s ← load p r element (s.emitAll [.dup, .const (.int (Int32.ofNat i))])
    fillElements p element kind (i + 1) registers (s.emit (.arrayStore kind))

def filledNewArray (p : Plan) (registers : List Nat) (type : Descriptor) (s : State) : Except Fault State :=
  match type.element? with
  | none => refuse (.filledNonArray type)
  | some element => do
    let kind ← arrayKindOf element
    let s := s.emitAll [.const (.int (Int32.ofNat registers.length)), .newArray element]
    let s ← fillElements p element kind 0 registers s
    return { s with pending := some type }

def dataWidth? : Descriptor → Option Nat
  | .bool | .byte => some 1
  | .char | .short => some 2
  | .int | .float => some 4
  | .long | .double => some 8
  | _ => none

def dataConstant (element : Descriptor) (bits : Nat) : Constant :=
  match element with
  | .bool | .byte => .int (Int32.ofInt (twosComplement 8 bits))
  | .char => .int (Int32.ofInt (bits % 0x10000 : Nat))
  | .short => .int (Int32.ofInt (twosComplement 16 bits))
  | .float => .float (UInt32.ofNat bits)
  | .long => .long (Int64.ofInt (twosComplement 64 bits))
  | .double => .double (UInt64.ofNat bits)
  | _ => .int (Int32.ofInt (twosComplement 32 bits))

def storeData (p : Plan) (r : Nat) (array element : Descriptor) (kind : ArrayKind) :
    Nat → List Nat → State → Except Fault State
  | _, [], s => .ok s
  | i, bits :: rest, s => do
    let s ← load p r array s
    let s := s.emitAll [.const (.int (Int32.ofNat i)), .const (dataConstant element bits), .arrayStore kind]
    storeData p r array element kind (i + 1) rest s

def fillArrayData (p : Plan) (r : Nat) (data : ArrayData) (s : State) : Except Fault State := do
  let state ← s.register r
  match state with
  | .typed (.array element) =>
    match dataWidth? element with
    | none => refuse (.fillElement element)
    | some width =>
      if data.elementWidth ≠ width then refuse (.fillWidth data.elementWidth element)
      let kind ← arrayKindOf element
      storeData p r (.array element) element kind 0 data.elements s
  | _ => refuse (.fillNonArray r state)

def arrayGet (p : Plan) (op : AccessOp) (dest array index : Nat) (s : State) : Except Fault State := do
  let (type, element) ← arrayTypeOf array op s
  let s ← load p array type s
  let s ← load p index .int s
  let kind ← arrayKindOf element
  store p dest element (s.emit (.arrayLoad kind))

def arrayPut (p : Plan) (op : AccessOp) (value array index : Nat) (s : State) : Except Fault State := do
  let (type, element) ← arrayTypeOf array op s
  let s ← load p array type s
  let s ← load p index .int s
  let s ← load p value element s
  let kind ← arrayKindOf element
  return s.emit (.arrayStore kind)

def packedSwitch (p : Plan) (value : Nat) (firstKey : Int32) (targets : List Label) (next : Label) (s : State) :
    Except Fault State := do
  let s ← load p value .int s
  let s ← s.arriveAll (targets ++ [next]) .branch
  return s.emit (if targets.isEmpty then .lookupSwitch next [] else .tableSwitch firstKey next targets)

def sparseSwitch (p : Plan) (value : Nat) (pairs : List (Int32 × Label)) (next : Label) (s : State) :
    Except Fault State := do
  let s ← load p value .int s
  let s ← s.arriveAll (pairs.map Prod.snd ++ [next]) .branch
  return s.emit (.lookupSwitch next pairs)

def step (p : Plan) (i : Instruction) (s : State) : Except Fault State :=
  match i with
  | .nop => .ok s
  | .move kind dest source => move p kind dest source s
  | .moveResult kind dest => moveResult p kind dest s
  | .moveException dest => moveException p dest s
  | .returnVoid => .ok (s.emit (.leave none))
  | .returnValue _ source => do
    let s ← load p source p.shape.signature.result s
    return s.emit (.leave (some (← kindOf p.shape.signature.result)))
  | .const dest value => constant p dest (.int value) false s
  | .constWide dest value => constant p dest (.long value) true s
  | .constString dest value => store p dest (.object "java/lang/String") (s.emit (.const (.string value)))
  | .constClass dest type =>
    store p dest (.object "java/lang/Class") (s.emit (.const (.classLiteral type.internalName)))
  | .monitorEnter r => do return (← load p r object s).emit .monitorEnter
  | .monitorExit r => do return (← load p r object s).emit .monitorExit
  | .checkCast r type => do
    let s ← load p r type s
    store p r type (s.emit (.checkCast type.internalName))
  | .instanceOf dest r type => do
    let s ← load p r object s
    store p dest .bool (s.emit (.instanceOf type.internalName))
  | .arrayLength dest array => do
    let (type, _) ← arrayTypeOf array .object s
    let s ← load p array type s
    store p dest .int (s.emit .arrayLength)
  | .newInstance dest type => store p dest type (s.emit (.new type.internalName))
  | .newArray dest size type =>
    match type.element? with
    | none => refuse (.newNonArray type)
    | some element => do
      let s ← load p size .int s
      store p dest type (s.emit (.newArray element))
  | .filledNewArray items type => filledNewArray p items type s
  | .fillArrayData array data => fillArrayData p array data s
  | .throwValue r => do return (← load p r throwable s).emit .throwTop
  | .goto target => jumpOn .always target s
  | .packedSwitch value firstKey targets next => packedSwitch p value firstKey targets next s
  | .sparseSwitch value pairs next => sparseSwitch p value pairs next s
  | .compare op dest left right => do
    let s ← load p left op.operand s
    let s ← load p right op.operand s
    store p dest .int (s.emit (compareInsn op))
  | .test op left right target => test p op left right target s
  | .testZero op value target => testZero p op value target s
  | .arrayGet op dest array index => arrayGet p op dest array index s
  | .arrayPut op value array index => arrayPut p op value array index s
  | .instanceGet _ dest r field => do
    let s ← load p r field.owner s
    store p dest field.type (s.emit (.getField (fieldRef field)))
  | .instancePut _ value r field => do
    let s ← load p r field.owner s
    let s ← load p value field.type s
    return s.emit (.putField (fieldRef field))
  | .staticGet _ dest field => store p dest field.type (s.emit (.getStatic (fieldRef field)))
  | .staticPut _ value field => do return (← load p value field.type s).emit (.putStatic (fieldRef field))
  | .invoke op args method => invoke p op args method s
  | .unary op dest source => unary p op dest source s
  | .binary op dest left right => binary p op dest left right s
  | .binaryLiteral op dest source literal => do
    let s ← load p source .int s
    store p dest .int (s.emitAll [.const (.int literal), .arith op .int])
  | .reverseSubtract dest source literal => do
    let s ← load p source .int (s.emit (.const (.int literal)))
    store p dest .int (s.emit (.arith .sub .int))
  | .unsupported name => refuse (.unsupported name)

end Restack.Lowering
