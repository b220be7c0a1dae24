import Restack.Stack.Insn

namespace Restack

-- Register instructions with their operands decoded and their pool references
-- resolved. Encodings that differ by register or literal width are one
-- constructor, ranges are spelled out, and two-address arithmetic has its
-- target written twice.

inductive MoveKind where
  | single | wide | object
deriving DecidableEq, Repr

def MoveKind.suffix : MoveKind → String
  | .single => ""
  | .wide => "-wide"
  | .object => "-object"

inductive CompareOp where
  | lessFloat | greaterFloat | lessDouble | greaterDouble | long
deriving DecidableEq, Repr

namespace CompareOp

def name : CompareOp → String
  | .lessFloat => "cmpl-float"
  | .greaterFloat => "cmpg-float"
  | .lessDouble => "cmpl-double"
  | .greaterDouble => "cmpg-double"
  | .long => "cmp-long"

def operand : CompareOp → Descriptor
  | .lessFloat | .greaterFloat => .float
  | .lessDouble | .greaterDouble => .double
  | .long => .long

end CompareOp

inductive TestOp where
  | equal | notEqual | less | greaterEqual | greater | lessEqual
deriving DecidableEq, Repr

namespace TestOp

def all : List TestOp := [.equal, .notEqual, .less, .greaterEqual, .greater, .lessEqual]

def name : TestOp → String
  | .equal => "if-eq"
  | .notEqual => "if-ne"
  | .less => "if-lt"
  | .greaterEqual => "if-ge"
  | .greater => "if-gt"
  | .lessEqual => "if-le"

def isEquality : TestOp → Bool
  | .equal | .notEqual => true
  | _ => false

def comparison : TestOp → Comparison
  | .equal => .eq
  | .notEqual => .ne
  | .less => .lt
  | .greaterEqual => .ge
  | .greater => .gt
  | .lessEqual => .le

end TestOp

inductive AccessOp where
  | single | wide | object | boolean | byte | char | short
deriving DecidableEq, Repr

namespace AccessOp

def all : List AccessOp := [.single, .wide, .object, .boolean, .byte, .char, .short]

def suffix : AccessOp → String
  | .single => ""
  | .wide => "-wide"
  | .object => "-object"
  | .boolean => "-boolean"
  | .byte => "-byte"
  | .char => "-char"
  | .short => "-short"

def implied? : AccessOp → Option Descriptor
  | .boolean => some .bool
  | .byte => some .byte
  | .char => some .char
  | .short => some .short
  | _ => none

end AccessOp

inductive InvokeOp where
  | virtual | super | direct | static | interface
deriving DecidableEq, Repr

namespace InvokeOp

def all : List InvokeOp := [.virtual, .super, .direct, .static, .interface]

def name : InvokeOp → String
  | .virtual => "invoke-virtual"
  | .super => "invoke-super"
  | .direct => "invoke-direct"
  | .static => "invoke-static"
  | .interface => "invoke-interface"

def dispatch : InvokeOp → Dispatch
  | .virtual => .virtual
  | .super | .direct => .special
  | .static => .static
  | .interface => .interface

end InvokeOp

inductive UnaryOp where
  | negInt | notInt | negLong | notLong | negFloat | negDouble
  | intToLong | intToFloat | intToDouble | longToInt | longToFloat | longToDouble
  | floatToInt | floatToLong | floatToDouble | doubleToInt | doubleToLong | doubleToFloat
  | intToByte | intToChar | intToShort
deriving DecidableEq, Repr

namespace UnaryOp

def opcodeName : UnaryOp → String
  | .negInt => "neg-int"
  | .notInt => "not-int"
  | .negLong => "neg-long"
  | .notLong => "not-long"
  | .negFloat => "neg-float"
  | .negDouble => "neg-double"
  | .intToLong => "int-to-long"
  | .intToFloat => "int-to-float"
  | .intToDouble => "int-to-double"
  | .longToInt => "long-to-int"
  | .longToFloat => "long-to-float"
  | .longToDouble => "long-to-double"
  | .floatToInt => "float-to-int"
  | .floatToLong => "float-to-long"
  | .floatToDouble => "float-to-double"
  | .doubleToInt => "double-to-int"
  | .doubleToLong => "double-to-long"
  | .doubleToFloat => "double-to-float"
  | .intToByte => "int-to-byte"
  | .intToChar => "int-to-char"
  | .intToShort => "int-to-short"

def name : UnaryOp → String
  | .negInt => "NegateInt"
  | .notInt => "NotInt"
  | .negLong => "NegateLong"
  | .notLong => "NotLong"
  | .negFloat => "NegateFloat"
  | .negDouble => "NegateDouble"
  | .intToLong => "IntToLong"
  | .intToFloat => "IntToFloat"
  | .intToDouble => "IntToDouble"
  | .longToInt => "LongToInt"
  | .longToFloat => "LongToFloat"
  | .longToDouble => "LongToDouble"
  | .floatToInt => "FloatToInt"
  | .floatToLong => "FloatToLong"
  | .floatToDouble => "FloatToDouble"
  | .doubleToInt => "DoubleToInt"
  | .doubleToLong => "DoubleToLong"
  | .doubleToFloat => "DoubleToFloat"
  | .intToByte => "IntToByte"
  | .intToChar => "IntToChar"
  | .intToShort => "IntToShort"

def operand : UnaryOp → Descriptor
  | .negInt | .notInt | .intToLong | .intToFloat | .intToDouble | .intToByte | .intToChar | .intToShort => .int
  | .negLong | .notLong | .longToInt | .longToFloat | .longToDouble => .long
  | .negFloat | .floatToInt | .floatToLong | .floatToDouble => .float
  | .negDouble | .doubleToInt | .doubleToLong | .doubleToFloat => .double

def result : UnaryOp → Descriptor
  | .negInt | .notInt | .longToInt | .floatToInt | .doubleToInt => .int
  | .negLong | .notLong | .intToLong | .floatToLong | .doubleToLong => .long
  | .negFloat | .intToFloat | .longToFloat | .doubleToFloat => .float
  | .negDouble | .intToDouble | .longToDouble | .floatToDouble => .double
  | .intToByte => .byte
  | .intToChar => .char
  | .intToShort => .short

def all : List UnaryOp := [
  .negInt, .notInt, .negLong, .notLong, .negFloat, .negDouble,
  .intToLong, .intToFloat, .intToDouble, .longToInt, .longToFloat, .longToDouble,
  .floatToInt, .floatToLong, .floatToDouble, .doubleToInt, .doubleToLong, .doubleToFloat,
  .intToByte, .intToChar, .intToShort]

end UnaryOp

structure BinaryOp where
  arith : Arith
  operand : Kind
deriving DecidableEq, Repr

namespace BinaryOp

def typeName : Kind → String
  | .int => "int"
  | .long => "long"
  | .float => "float"
  | .double => "double"
  | .reference => "object"

def name (op : BinaryOp) : String := op.arith.name ++ "-" ++ typeName op.operand

def type (op : BinaryOp) : Descriptor :=
  match op.operand with
  | .int | .reference => .int
  | .long => .long
  | .float => .float
  | .double => .double

-- The distance of a shift is an int, whatever is shifted.
def isShift (op : BinaryOp) : Bool :=
  match op.arith with
  | .shl | .shr | .ushr => true
  | _ => false

def canThrow (op : BinaryOp) : Bool :=
  (op.arith = .div || op.arith = .rem) && (op.operand = .int || op.operand = .long)

def wholeOps : List Arith := [.add, .sub, .mul, .div, .rem, .and, .or, .xor, .shl, .shr, .ushr]

def floatingOps : List Arith := [.add, .sub, .mul, .div, .rem]

def all : List BinaryOp :=
  wholeOps.map (⟨·, .int⟩) ++ wholeOps.map (⟨·, .long⟩) ++
    floatingOps.map (⟨·, .float⟩) ++ floatingOps.map (⟨·, .double⟩)

end BinaryOp

structure FieldReference where
  owner : Descriptor
  name : String
  type : Descriptor
deriving DecidableEq, Repr

structure MethodReference where
  owner : Descriptor
  name : String
  signature : MethodDescriptor
deriving DecidableEq, Repr

structure ArrayData where
  elementWidth : Nat
  bytes : List UInt8
deriving DecidableEq, Repr

def littleEndian : List UInt8 → Nat
  | [] => 0
  | b :: rest => b.toNat + 256 * littleEndian rest

namespace ArrayData

def chunks (width : Nat) : Nat → List UInt8 → List (List UInt8)
  | 0, _ => []
  | fuel + 1, bytes =>
    if bytes.length < width then [] else bytes.take width :: chunks width fuel (bytes.drop width)

-- The elements as numbers of at most 64 bits. A width of zero counts as one.
def elements (d : ArrayData) : List Nat :=
  let width := max d.elementWidth 1
  (chunks width (d.bytes.length / width) d.bytes).map fun chunk => littleEndian chunk % 0x10000000000000000

end ArrayData

inductive Instruction where
  | nop
  | move (kind : MoveKind) (dest source : Nat)
  | moveResult (kind : MoveKind) (dest : Nat)
  | moveException (dest : Nat)
  | returnVoid
  | returnValue (kind : MoveKind) (source : Nat)
  | const (dest : Nat) (value : Int32)
  | constWide (dest : Nat) (value : Int64)
  | constString (dest : Nat) (value : String)
  | constClass (dest : Nat) (type : Descriptor)
  | monitorEnter (object : Nat)
  | monitorExit (object : Nat)
  | checkCast (object : Nat) (type : Descriptor)
  | instanceOf (dest object : Nat) (type : Descriptor)
  | arrayLength (dest array : Nat)
  | newInstance (dest : Nat) (type : Descriptor)
  | newArray (dest size : Nat) (type : Descriptor)
  | filledNewArray (items : List Nat) (type : Descriptor)
  | fillArrayData (array : Nat) (data : ArrayData)
  | throwValue (object : Nat)
  | goto (target : Label)
  | packedSwitch (value : Nat) (firstKey : Int32) (targets : List Label) (next : Label)
  | sparseSwitch (value : Nat) (pairs : List (Int32 × Label)) (next : Label)
  | compare (op : CompareOp) (dest left right : Nat)
  | test (op : TestOp) (left right : Nat) (target : Label)
  | testZero (op : TestOp) (value : Nat) (target : Label)
  | arrayGet (op : AccessOp) (dest array index : Nat)
  | arrayPut (op : AccessOp) (value array index : Nat)
  | instanceGet (op : AccessOp) (dest object : Nat) (field : FieldReference)
  | instancePut (op : AccessOp) (value object : Nat) (field : FieldReference)
  | staticGet (op : AccessOp) (dest : Nat) (field : FieldReference)
  | staticPut (op : AccessOp) (value : Nat) (field : FieldReference)
  | invoke (op : InvokeOp) (args : List Nat) (method : MethodReference)
  | unary (op : UnaryOp) (dest source : Nat)
  | binary (op : BinaryOp) (dest left right : Nat)
  | binaryLiteral (op : Arith) (dest source : Nat) (literal : Int32)
  | reverseSubtract (dest source : Nat) (literal : Int32)
  | unsupported (name : String)
deriving DecidableEq

namespace Instruction

def regText (r : Nat) : String := "v" ++ toString r

def regsText (rs : List Nat) : String := ", ".intercalate (rs.map regText)

def fieldText (f : FieldReference) : String := f.owner.text ++ "->" ++ f.name ++ ":" ++ f.type.text

def text : Instruction → String
  | .nop => "nop"
  | .move kind dest source => "move" ++ kind.suffix ++ " " ++ regsText [dest, source]
  | .moveResult kind dest => "move-result" ++ kind.suffix ++ " " ++ regText dest
  | .moveException dest => "move-exception " ++ regText dest
  | .returnVoid => "return-void"
  | .returnValue kind source => "return" ++ kind.suffix ++ " " ++ regText source
  | .const dest value => "const " ++ regText dest ++ ", #" ++ intText value
  | .constWide dest value => "const-wide " ++ regText dest ++ ", #" ++ longText value
  | .constString dest value => "const-string " ++ regText dest ++ ", " ++ Text.quoted value
  | .constClass dest type => "const-class " ++ regText dest ++ ", " ++ type.text
  | .monitorEnter object => "monitor-enter " ++ regText object
  | .monitorExit object => "monitor-exit " ++ regText object
  | .checkCast object type => "check-cast " ++ regText object ++ ", " ++ type.text
  | .instanceOf dest object type => "instance-of " ++ regsText [dest, object] ++ ", " ++ type.text
  | .arrayLength dest array => "array-length " ++ regsText [dest, array]
  | .newInstance dest type => "new-instance " ++ regText dest ++ ", " ++ type.text
  | .newArray dest size type => "new-array " ++ regsText [dest, size] ++ ", " ++ type.text
  | .filledNewArray items type => "filled-new-array \x7b" ++ regsText items ++ "\x7d, " ++ type.text
  | .fillArrayData array data =>
    "fill-array-data " ++ regText array ++ ", " ++ toString data.elements.length ++ " x " ++
      toString data.elementWidth ++ " bytes"
  | .throwValue object => "throw " ++ regText object
  | .goto target => "goto " ++ target.text
  | .packedSwitch value firstKey targets _ =>
    "packed-switch " ++ regText value ++ ", " ++ intText firstKey ++
      String.join (targets.map fun t => " " ++ t.text)
  | .sparseSwitch value pairs _ =>
    "sparse-switch " ++ regText value ++
      String.join (pairs.map fun p => " " ++ intText p.1 ++ "->" ++ p.2.text)
  | .compare op dest left right => op.name ++ " " ++ regsText [dest, left, right]
  | .test op left right target => op.name ++ " " ++ regsText [left, right] ++ ", " ++ target.text
  | .testZero op value target => op.name ++ "z " ++ regText value ++ ", " ++ target.text
  | .arrayGet op dest array index => "aget" ++ op.suffix ++ " " ++ regsText [dest, array, index]
  | .arrayPut op value array index => "aput" ++ op.suffix ++ " " ++ regsText [value, array, index]
  | .instanceGet op dest object field =>
    "iget" ++ op.suffix ++ " " ++ regsText [dest, object] ++ ", " ++ fieldText field
  | .instancePut op value object field =>
    "iput" ++ op.suffix ++ " " ++ regsText [value, object] ++ ", " ++ fieldText field
  | .staticGet op dest field => "sget" ++ op.suffix ++ " " ++ regText dest ++ ", " ++ fieldText field
  | .staticPut op value field => "sput" ++ op.suffix ++ " " ++ regText value ++ ", " ++ fieldText field
  | .invoke op args method =>
    op.name ++ " \x7b" ++ regsText args ++ "\x7d, " ++ method.owner.text ++ "->" ++ method.name ++
      method.signature.text
  | .unary op dest source => op.name ++ " " ++ regsText [dest, source]
  | .binary op dest left right => op.name ++ " " ++ regsText [dest, left, right]
  | .binaryLiteral op dest source literal =>
    op.name ++ "-int/lit " ++ regsText [dest, source] ++ ", #" ++ intText literal
  | .reverseSubtract dest source literal =>
    "rsub-int " ++ regsText [dest, source] ++ ", #" ++ intText literal
  | .unsupported name => name

end Instruction

end Restack
