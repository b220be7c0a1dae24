import Mathlib
import Restack.Proofs.Lowering.Parts

namespace Restack.Lowering

-- What each instruction is lowered to, with the type that is left on the stack
-- before and after. Where an instruction has several templates, what is known of
-- its registers decides.

-- The types an instruction gives to values. What it finds in registers is apart.
def givenTypes (result : Descriptor) : Instruction → List Descriptor
  | .move kind _ _ => if kind = .object then [object] else []
  | .returnValue _ _ => [result]
  | .constString _ _ => [.object "java/lang/String"]
  | .constClass _ _ => [.object "java/lang/Class"]
  | .monitorEnter _ | .monitorExit _ => [object]
  | .checkCast _ type => [type]
  | .instanceOf _ _ _ => [object,.bool]
  | .newInstance _ type => [type]
  | .newArray _ _ type => [type]
  | .filledNewArray _ type => [type]
  | .throwValue _ => [throwable]
  | .compare op _ _ _ => [op.operand]
  | .instanceGet _ _ _ field | .instancePut _ _ _ field => [field.owner,field.type]
  | .staticGet _ _ field | .staticPut _ _ field => [field.type]
  | .invoke op _ method =>
    (if op = .static then [] else [method.owner]) ++ method.signature.args ++
      if method.signature.result = .void then [] else [method.signature.result]
  | .unary op _ _ => [op.operand,op.result]
  | .binary op _ _ _ => [op.type]
  | _ => []

-- A set of types that lowering does not leave. One reference type brings in all
-- others: elements come out of arrays.
structure Closed (P : Descriptor → Prop) : Prop where
  int : P .int
  reference : ∀ type, P type → type.isReference → ∀ other, P other

def arguments? (registers : List Nat) : List Descriptor → Nat → Option (List (Nat × Descriptor))
  | [], next => if next = registers.length then some [] else none
  | type :: types, next =>
    match registers[next]?, arguments? registers types (next + type.slots) with
    | some r, some rest => some ((r,type) :: rest)
    | _, _ => none

def readParts (reads : List (Nat × Descriptor)) : List Part := reads.map fun pair => .read pair.1 pair.2

def elementParts (element : Descriptor) (kind : ArrayKind) : Nat → List Nat → List Part
  | _, [] => []
  | i, r :: registers =>
    [.code .dup,.code (.const (.int (Int32.ofNat i))),.read r element,.code (.arrayStore kind)] ++
      elementParts element kind (i + 1) registers

def dataParts (r : Nat) (array element : Descriptor) (kind : ArrayKind) : Nat → List Nat → List Part
  | _, [] => []
  | i, bits :: rest =>
    [.read r array,.code (.const (.int (Int32.ofNat i))),.code (.const (dataConstant element bits)),
      .code (.arrayStore kind)] ++ dataParts r array element kind (i + 1) rest

def switchInsn (firstKey : Int32) (targets : List Label) (next : Label) : Insn :=
  if targets.isEmpty then .lookupSwitch next [] else .tableSwitch firstKey next targets

def resultLeft (m : MethodReference) : Option Descriptor :=
  if m.signature.result = .void then none else some m.signature.result

inductive Template (result : Descriptor) : Instruction → Option Descriptor → List Part → Option Descriptor → Prop where
  | nop : Template result .nop none [] none
  | move {kind : MoveKind} {dest source : Nat} :
      Template result (.move kind dest source) none [.copy dest source (decide (kind = .wide))] none
  | moveResult {kind : MoveKind} {dest : Nat} {type : Descriptor} : type.isWide = decide (kind = .wide) →
      type.isReference = decide (kind = .object) →
      Template result (.moveResult kind dest) (some type) [.write dest type] none
  | moveException {dest : Nat} {type : Descriptor} :
      Template result (.moveException dest) (some type) [.write dest type] none
  | returnVoid : Template result .returnVoid none [.code (.leave none)] none
  | returnValue {kind : MoveKind} {source : Nat} {left : Kind} : result.kind? = some left →
      Template result (.returnValue kind source) none [.read source result,.code (.leave (some left))] none
  | const {dest : Nat} {value : Int32} : Template result (.const dest value) none [.bits dest (.int value) false] none
  | constWide {dest : Nat} {value : Int64} :
      Template result (.constWide dest value) none [.bits dest (.long value) true] none
  | constString {dest : Nat} {value : String} :
      Template result (.constString dest value) none
        [.code (.const (.string value)),.write dest (.object "java/lang/String")] none
  | constClass {dest : Nat} {type : Descriptor} :
      Template result (.constClass dest type) none
        [.code (.const (.classLiteral type.internalName)),.write dest (.object "java/lang/Class")] none
  | monitorEnter {r : Nat} : Template result (.monitorEnter r) none [.read r object,.code .monitorEnter] none
  | monitorExit {r : Nat} : Template result (.monitorExit r) none [.read r object,.code .monitorExit] none
  | checkCast {r : Nat} {type : Descriptor} :
      Template result (.checkCast r type) none
        [.read r type,.code (.checkCast type.internalName),.write r type] none
  | instanceOf {dest r : Nat} {type : Descriptor} :
      Template result (.instanceOf dest r type) none
        [.read r object,.code (.instanceOf type.internalName),.write dest .bool] none
  | arrayLength {dest array : Nat} {element : Descriptor} :
      Template result (.arrayLength dest array) none
        [.read array (.array element),.code .arrayLength,.write dest .int] none
  | newInstance {dest : Nat} {type : Descriptor} :
      Template result (.newInstance dest type) none [.code (.new type.internalName),.write dest type] none
  | newArray {dest size : Nat} {element : Descriptor} :
      Template result (.newArray dest size (.array element)) none
        [.read size .int,.code (.newArray element),.write dest (.array element)] none
  | filledNewArray {registers : List Nat} {element : Descriptor} {kind : ArrayKind} :
      element.arrayKind? = some kind →
      Template result (.filledNewArray registers (.array element)) none
        ([.code (.const (.int (Int32.ofNat registers.length))),.code (.newArray element)] ++
          elementParts element kind 0 registers) (some (.array element))
  | fillArrayData {r : Nat} {data : ArrayData} {element : Descriptor} {kind : ArrayKind} :
      element.arrayKind? = some kind →
      Template result (.fillArrayData r data) none (dataParts r (.array element) element kind 0 data.elements) none
  | throwValue {r : Nat} : Template result (.throwValue r) none [.read r throwable,.code .throwTop] none
  | goto {target : Label} : Template result (.goto target) none [.code (.jump .always target)] none
  | packedSwitch {value : Nat} {firstKey : Int32} {targets : List Label} {next : Label} :
      Template result (.packedSwitch value firstKey targets next) none
        [.read value .int,.code (switchInsn firstKey targets next)] none
  | sparseSwitch {value : Nat} {pairs : List (Int32 × Label)} {next : Label} :
      Template result (.sparseSwitch value pairs next) none [.read value .int,.code (.lookupSwitch next pairs)] none
  | compare {op : CompareOp} {dest left right : Nat} :
      Template result (.compare op dest left right) none
        [.read left op.operand,.read right op.operand,.code (compareInsn op),.write dest .int] none
  | test {op : TestOp} {left right : Nat} {target : Label} :
      Template result (.test op left right target) none
        [.read left .int,.read right .int,.code (.jump (.ints op.comparison) target)] none
  | testReference {op : TestOp} {left right : Nat} {target : Label} {type : Descriptor} : type.isReference →
      Template result (.test op left right target) none
        [.read left type,.read right type,.code (.jump (sameCondition op) target)] none
  | testOpen {op : TestOp} {left right : Nat} {target : Label} :
      Template result (.test op left right target) none
        [.look left,.look right,.code (.jump (.ints op.comparison) target)] none
  | testZero {op : TestOp} {r : Nat} {target : Label} :
      Template result (.testZero op r target) none [.read r .int,.code (.jump (.zero op.comparison) target)] none
  | testNull {op : TestOp} {r : Nat} {target : Label} {type : Descriptor} : type.isReference →
      Template result (.testZero op r target) none [.read r type,.code (.jump (nullCondition op) target)] none
  | testZeroOpen {op : TestOp} {r : Nat} {target : Label} :
      Template result (.testZero op r target) none [.look r,.code (.jump (.zero op.comparison) target)] none
  | arrayGet {op : AccessOp} {dest array index : Nat} {element : Descriptor} {kind : ArrayKind} :
      element.arrayKind? = some kind →
      Template result (.arrayGet op dest array index) none
        [.read array (.array element),.read index .int,.code (.arrayLoad kind),.write dest element] none
  | arrayPut {op : AccessOp} {value array index : Nat} {element : Descriptor} {kind : ArrayKind} :
      element.arrayKind? = some kind →
      Template result (.arrayPut op value array index) none
        [.read array (.array element),.read index .int,.read value element,.code (.arrayStore kind)] none
  | instanceGet {op : AccessOp} {dest r : Nat} {field : FieldReference} :
      Template result (.instanceGet op dest r field) none
        [.read r field.owner,.code (.getField (fieldRef field)),.write dest field.type] none
  | instancePut {op : AccessOp} {value r : Nat} {field : FieldReference} :
      Template result (.instancePut op value r field) none
        [.read r field.owner,.read value field.type,.code (.putField (fieldRef field))] none
  | staticGet {op : AccessOp} {dest : Nat} {field : FieldReference} :
      Template result (.staticGet op dest field) none
        [.code (.getStatic (fieldRef field)),.write dest field.type] none
  | staticPut {op : AccessOp} {value : Nat} {field : FieldReference} :
      Template result (.staticPut op value field) none
        [.read value field.type,.code (.putStatic (fieldRef field))] none
  | invokeStatic {registers : List Nat} {m : MethodReference} {reads : List (Nat × Descriptor)} :
      arguments? registers m.signature.args 0 = some reads →
      Template result (.invoke .static registers m) none
        (readParts reads ++ [.code (.invoke .static ⟨m.owner.internalName,m.name,m.signature.text⟩)]) (resultLeft m)
  | invoke {op : InvokeOp} {registers : List Nat} {r : Nat} {m : MethodReference} {reads : List (Nat × Descriptor)} :
      op ≠ .static → registers.head? = some r → arguments? registers m.signature.args 1 = some reads →
      Template result (.invoke op registers m) none
        (readParts ((r,m.owner) :: reads) ++
          [.code (.invoke op.dispatch ⟨m.owner.internalName,m.name,m.signature.text⟩)]) (resultLeft m)
  | unary {op : UnaryOp} {dest source : Nat} {from_ into : Kind} : op.operand.kind? = some from_ →
      op.result.kind? = some into →
      Template result (.unary op dest source) none
        ([.read source op.operand] ++ (unaryInsns op from_ into).map .code ++ [.write dest op.result]) none
  | binary {op : BinaryOp} {dest left right : Nat} {kind : Kind} : op.type.kind? = some kind →
      Template result (.binary op dest left right) none
        [.read left op.type,.read right (if op.isShift then .int else op.type),.code (.arith op.arith kind),
          .write dest op.type] none
  | binaryLiteral {op : Arith} {dest source : Nat} {literal : Int32} :
      Template result (.binaryLiteral op dest source literal) none
        [.read source .int,.code (.const (.int literal)),.code (.arith op .int),.write dest .int] none
  | reverseSubtract {dest source : Nat} {literal : Int32} :
      Template result (.reverseSubtract dest source literal) none
        [.code (.const (.int literal)),.read source .int,.code (.arith .sub .int),.write dest .int] none

end Restack.Lowering
