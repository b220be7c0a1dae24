import Restack.Register.Instruction

namespace Restack

-- The opcode table: for every opcode value its name, operand layout, kind of
-- pool reference, effects and meaning. Values that no row covers are unused.

inductive Format where
  | f10t | f10x | f11n | f11x | f12x
  | f20t | f21c | f21ih | f21lh | f21s | f21t | f22b | f22c | f22s | f22t | f22x | f23x
  | f30t | f31c | f31i | f31t | f32x | f35c | f3rc
  | f45cc | f4rcc
  | f51l
deriving DecidableEq, Repr

namespace Format

def units : Format → Nat
  | .f10t | .f10x | .f11n | .f11x | .f12x => 1
  | .f20t | .f21c | .f21ih | .f21lh | .f21s | .f21t | .f22b | .f22c | .f22s | .f22t | .f22x | .f23x => 2
  | .f30t | .f31c | .f31i | .f31t | .f32x | .f35c | .f3rc => 3
  | .f45cc | .f4rcc => 4
  | .f51l => 5

def name : Format → String
  | .f10t => "Format10t"
  | .f10x => "Format10x"
  | .f11n => "Format11n"
  | .f11x => "Format11x"
  | .f12x => "Format12x"
  | .f20t => "Format20t"
  | .f21c => "Format21c"
  | .f21ih => "Format21ih"
  | .f21lh => "Format21lh"
  | .f21s => "Format21s"
  | .f21t => "Format21t"
  | .f22b => "Format22b"
  | .f22c => "Format22c"
  | .f22s => "Format22s"
  | .f22t => "Format22t"
  | .f22x => "Format22x"
  | .f23x => "Format23x"
  | .f30t => "Format30t"
  | .f31c => "Format31c"
  | .f31i => "Format31i"
  | .f31t => "Format31t"
  | .f32x => "Format32x"
  | .f35c => "Format35c"
  | .f3rc => "Format3rc"
  | .f45cc => "Format45cc"
  | .f4rcc => "Format4rcc"
  | .f51l => "Format51l"

end Format

inductive PoolReference where
  | none | string | type | field | method | callSite | prototype | methodHandle
deriving DecidableEq, Repr

def PoolReference.name : PoolReference → String
  | .none => "None"
  | .string => "String"
  | .type => "Type"
  | .field => "Field"
  | .method => "Method"
  | .callSite => "CallSite"
  | .prototype => "MethodProto"
  | .methodHandle => "MethodHandle"

structure Effects where
  canThrow : Bool := false
  canContinue : Bool := false
  setsResult : Bool := false
  setsRegister : Bool := false
  setsWideRegister : Bool := false
deriving DecidableEq, Repr

namespace Effects

def bits (e : Effects) : Nat :=
  (if e.canThrow then 0x1 else 0) + (if e.canContinue then 0x4 else 0) + (if e.setsResult then 0x8 else 0) +
    (if e.setsRegister then 0x10 else 0) + (if e.setsWideRegister then 0x20 else 0)

def stops : Effects := {}

def goes : Effects := { canContinue := true }

def throwing (e : Effects) : Effects := { e with canThrow := true }

def yielding (e : Effects) : Effects := { e with setsResult := true }

def writing (e : Effects) : Effects := { e with setsRegister := true }

def writingWide (e : Effects) : Effects := { e with setsRegister := true, setsWideRegister := true }

def writingValue (e : Effects) (wide : Bool) : Effects := if wide then e.writingWide else e.writing

def throwingIf (e : Effects) (condition : Bool) : Effects := if condition then e.throwing else e

end Effects

inductive Operation where
  | nop
  | move (kind : MoveKind)
  | moveResult (kind : MoveKind)
  | moveException
  | returnVoid
  | returnValue (kind : MoveKind)
  | const
  | constWide
  | constString
  | constClass
  | monitorEnter
  | monitorExit
  | checkCast
  | instanceOf
  | arrayLength
  | newInstance
  | newArray
  | filledNewArray
  | fillArrayData
  | throwValue
  | goto
  | packedSwitch
  | sparseSwitch
  | compare (op : CompareOp)
  | test (op : TestOp)
  | testZero (op : TestOp)
  | arrayGet (op : AccessOp)
  | arrayPut (op : AccessOp)
  | instanceGet (op : AccessOp)
  | instancePut (op : AccessOp)
  | staticGet (op : AccessOp)
  | staticPut (op : AccessOp)
  | invoke (op : InvokeOp)
  | unary (op : UnaryOp)
  | binary (op : BinaryOp)
  | binaryInPlace (op : BinaryOp)
  | binaryLiteral (op : Arith)
  | reverseSubtract
  | unsupported
deriving DecidableEq, Repr

structure Opcode where
  name : String
  format : Format
  reference : PoolReference
  effects : Effects
  operation : Operation
deriving DecidableEq, Repr

namespace Opcode

def moveRows : List Opcode := [
  ⟨"nop", .f10x, .none, .goes, .nop⟩,
  ⟨"move", .f12x, .none, Effects.goes.writing, .move .single⟩,
  ⟨"move/from16", .f22x, .none, Effects.goes.writing, .move .single⟩,
  ⟨"move/16", .f32x, .none, Effects.goes.writing, .move .single⟩,
  ⟨"move-wide", .f12x, .none, Effects.goes.writingWide, .move .wide⟩,
  ⟨"move-wide/from16", .f22x, .none, Effects.goes.writingWide, .move .wide⟩,
  ⟨"move-wide/16", .f32x, .none, Effects.goes.writingWide, .move .wide⟩,
  ⟨"move-object", .f12x, .none, Effects.goes.writing, .move .object⟩,
  ⟨"move-object/from16", .f22x, .none, Effects.goes.writing, .move .object⟩,
  ⟨"move-object/16", .f32x, .none, Effects.goes.writing, .move .object⟩,
  ⟨"move-result", .f11x, .none, Effects.goes.writing, .moveResult .single⟩,
  ⟨"move-result-wide", .f11x, .none, Effects.goes.writingWide, .moveResult .wide⟩,
  ⟨"move-result-object", .f11x, .none, Effects.goes.writing, .moveResult .object⟩,
  ⟨"move-exception", .f11x, .none, Effects.goes.writing, .moveException⟩,
  ⟨"return-void", .f10x, .none, .stops, .returnVoid⟩,
  ⟨"return", .f11x, .none, .stops, .returnValue .single⟩,
  ⟨"return-wide", .f11x, .none, .stops, .returnValue .wide⟩,
  ⟨"return-object", .f11x, .none, .stops, .returnValue .object⟩]

def constRows : List Opcode := [
  ⟨"const/4", .f11n, .none, Effects.goes.writing, .const⟩,
  ⟨"const/16", .f21s, .none, Effects.goes.writing, .const⟩,
  ⟨"const", .f31i, .none, Effects.goes.writing, .const⟩,
  ⟨"const/high16", .f21ih, .none, Effects.goes.writing, .const⟩,
  ⟨"const-wide/16", .f21s, .none, Effects.goes.writingWide, .constWide⟩,
  ⟨"const-wide/32", .f31i, .none, Effects.goes.writingWide, .constWide⟩,
  ⟨"const-wide", .f51l, .none, Effects.goes.writingWide, .constWide⟩,
  ⟨"const-wide/high16", .f21lh, .none, Effects.goes.writingWide, .constWide⟩,
  ⟨"const-string", .f21c, .string, Effects.goes.throwing.writing, .constString⟩,
  ⟨"const-string/jumbo", .f31c, .string, Effects.goes.throwing.writing, .constString⟩,
  ⟨"const-class", .f21c, .type, Effects.goes.throwing.writing, .constClass⟩]

def objectRows : List Opcode := [
  ⟨"monitor-enter", .f11x, .none, Effects.goes.throwing, .monitorEnter⟩,
  ⟨"monitor-exit", .f11x, .none, Effects.goes.throwing, .monitorExit⟩,
  ⟨"check-cast", .f21c, .type, Effects.goes.throwing.writing, .checkCast⟩,
  ⟨"instance-of", .f22c, .type, Effects.goes.throwing.writing, .instanceOf⟩,
  ⟨"array-length", .f12x, .none, Effects.goes.throwing.writing, .arrayLength⟩,
  ⟨"new-instance", .f21c, .type, Effects.goes.throwing.writing, .newInstance⟩,
  ⟨"new-array", .f22c, .type, Effects.goes.throwing.writing, .newArray⟩,
  ⟨"filled-new-array", .f35c, .type, Effects.goes.throwing.yielding, .filledNewArray⟩,
  ⟨"filled-new-array/range", .f3rc, .type, Effects.goes.throwing.yielding, .filledNewArray⟩,
  ⟨"fill-array-data", .f31t, .none, Effects.goes.throwing, .fillArrayData⟩]

def controlRows : List Opcode := [
  ⟨"throw", .f11x, .none, Effects.stops.throwing, .throwValue⟩,
  ⟨"goto", .f10t, .none, .stops, .goto⟩,
  ⟨"goto/16", .f20t, .none, .stops, .goto⟩,
  ⟨"goto/32", .f30t, .none, .stops, .goto⟩,
  ⟨"packed-switch", .f31t, .none, .goes, .packedSwitch⟩,
  ⟨"sparse-switch", .f31t, .none, .goes, .sparseSwitch⟩]

def compareRows : List Opcode :=
  [.lessFloat, .greaterFloat, .lessDouble, .greaterDouble, .long].map fun op =>
    ⟨CompareOp.name op, .f23x, .none, Effects.goes.writing, .compare op⟩

def testRows : List Opcode := TestOp.all.map fun op => ⟨op.name, .f22t, .none, .goes, .test op⟩

def testZeroRows : List Opcode := TestOp.all.map fun op => ⟨op.name ++ "z", .f21t, .none, .goes, .testZero op⟩

def accessRows (verb : String) (format : Format) (reference : PoolReference) (gets : Bool)
    (operation : AccessOp → Operation) : List Opcode :=
  AccessOp.all.map fun op =>
    let effects := Effects.goes.throwing
    let effects := if gets then effects.writingValue (op = .wide) else effects
    ⟨verb ++ op.suffix, format, reference, effects, operation op⟩

def invokeRows (suffix : String) (format : Format) : List Opcode :=
  InvokeOp.all.map fun op => ⟨op.name ++ suffix, format, .method, Effects.goes.throwing.yielding, .invoke op⟩

def unaryRows : List Opcode :=
  UnaryOp.all.map fun op =>
    ⟨op.opcodeName, .f12x, .none, Effects.goes.writingValue op.result.isWide, .unary op⟩

def binaryRows (suffix : String) (format : Format) (operation : BinaryOp → Operation) : List Opcode :=
  BinaryOp.all.map fun op =>
    let effects := (Effects.goes.writingValue op.operand.isWide).throwingIf op.canThrow
    ⟨op.name ++ suffix, format, .none, effects, operation op⟩

-- Arithmetic on a register and a literal. A subtraction takes the register from the literal.
def literalRow (name : String) (format : Format) (op : Arith) : Opcode :=
  let effects := Effects.goes.writing.throwingIf (op = .div || op = .rem)
  ⟨name, format, .none, effects, if op = .sub then .reverseSubtract else .binaryLiteral op⟩

def literal16Rows : List Opcode :=
  [.add, .sub, .mul, .div, .rem, .and, .or, .xor].map fun op =>
    literalRow (if op = Arith.sub then "rsub-int" else op.name ++ "-int/lit16") .f22s op

def literal8Rows : List Opcode :=
  BinaryOp.wholeOps.map fun op =>
    literalRow ((if op = Arith.sub then "rsub" else op.name) ++ "-int/lit8") .f22b op

def unsupportedRows : List Opcode := [
  ⟨"invoke-polymorphic", .f45cc, .method, Effects.goes.throwing.yielding, .unsupported⟩,
  ⟨"invoke-polymorphic/range", .f4rcc, .method, Effects.goes.throwing.yielding, .unsupported⟩,
  ⟨"invoke-custom", .f35c, .callSite, Effects.goes.throwing.yielding, .unsupported⟩,
  ⟨"invoke-custom/range", .f3rc, .callSite, Effects.goes.throwing.yielding, .unsupported⟩,
  ⟨"const-method-handle", .f21c, .methodHandle, Effects.goes.throwing.writing, .unsupported⟩,
  ⟨"const-method-type", .f21c, .prototype, Effects.goes.throwing.writing, .unsupported⟩]

def runs : List (Nat × List Opcode) := [
  (0x00, moveRows), (0x12, constRows), (0x1d, objectRows), (0x27, controlRows), (0x2d, compareRows),
  (0x32, testRows), (0x38, testZeroRows),
  (0x44, accessRows "aget" .f23x .none true .arrayGet), (0x4b, accessRows "aput" .f23x .none false .arrayPut),
  (0x52, accessRows "iget" .f22c .field true .instanceGet), (0x59, accessRows "iput" .f22c .field false .instancePut),
  (0x60, accessRows "sget" .f21c .field true .staticGet), (0x67, accessRows "sput" .f21c .field false .staticPut),
  (0x6e, invokeRows "" .f35c), (0x74, invokeRows "/range" .f3rc), (0x7b, unaryRows),
  (0x90, binaryRows "" .f23x .binary), (0xb0, binaryRows "/2addr" .f12x .binaryInPlace),
  (0xd0, literal16Rows), (0xd8, literal8Rows), (0xfa, unsupportedRows)]

def ofByte? (value : Nat) : Option Opcode :=
  runs.findSome? fun (start, rows) => if start ≤ value then rows[value - start]? else none

end Opcode

end Restack
