import Restack.Text.Quoted
import Restack.Decimal.Layout
import Restack.Descriptor

namespace Restack

structure Label where
  number : Nat
deriving DecidableEq, Repr

def Label.text (l : Label) : String := "L" ++ toString l.number

-- Stack instructions. Opcodes that differ by operand type alone are one
-- constructor with a `Kind`, so that an instruction can be emitted before its
-- type is known and retyped afterwards.

inductive Constant where
  | int (value : Int32)
  | long (value : Int64)
  | float (bits : UInt32)
  | double (bits : UInt64)
  | string (value : String)
  | classLiteral (name : String)
  | null
deriving DecidableEq

inductive Comparison where
  | eq | ne | lt | ge | gt | le
deriving DecidableEq, Repr

inductive Condition where
  | always
  | zero (c : Comparison)
  | ints (c : Comparison)
  | null
  | nonNull
  | sameReference
  | otherReference
deriving DecidableEq, Repr

inductive NanSide where
  | less | greater
deriving DecidableEq, Repr

inductive Arith where
  | add | sub | mul | div | rem | neg | and | or | xor | shl | shr | ushr
deriving DecidableEq, Repr

inductive Narrowing where
  | byte | char | short
deriving DecidableEq, Repr

inductive Dispatch where
  | virtual | special | static | interface
deriving DecidableEq, Repr

structure MemberRef where
  owner : String
  name : String
  desc : String
deriving DecidableEq, Repr

inductive Insn where
  | const (value : Constant)
  | load (kind : Kind) (slot : Nat)
  | store (kind : Kind) (slot : Nat)
  | arrayLoad (kind : ArrayKind)
  | arrayStore (kind : ArrayKind)
  | pop
  | pop2
  | dup
  | arith (op : Arith) (kind : Kind)
  | convert (source target : Kind)
  | narrow (width : Narrowing)
  | compareLong
  | compareFloat (nan : NanSide)
  | compareDouble (nan : NanSide)
  | jump (condition : Condition) (target : Label)
  | tableSwitch (low : Int32) (fallback : Label) (targets : List Label)
  | lookupSwitch (fallback : Label) (pairs : List (Int32 × Label))
  | leave (kind : Option Kind)
  | getStatic (field : MemberRef)
  | putStatic (field : MemberRef)
  | getField (field : MemberRef)
  | putField (field : MemberRef)
  | invoke (dispatch : Dispatch) (method : MemberRef)
  | new (className : String)
  | newArray (element : Descriptor)
  | arrayLength
  | throwTop
  | checkCast (className : String)
  | instanceOf (className : String)
  | monitorEnter
  | monitorExit
deriving DecidableEq

namespace Comparison

def all : List Comparison := [.eq, .ne, .lt, .ge, .gt, .le]

def suffix : Comparison → String
  | .eq => "eq"
  | .ne => "ne"
  | .lt => "lt"
  | .ge => "ge"
  | .gt => "gt"
  | .le => "le"

def name : Comparison → String
  | .eq => "Eq"
  | .ne => "Ne"
  | .lt => "Lt"
  | .ge => "Ge"
  | .gt => "Gt"
  | .le => "Le"

end Comparison

namespace Condition

def name : Condition → String
  | .always => "Always"
  | .zero c => "Zero(" ++ c.name ++ ")"
  | .ints c => "ICmp(" ++ c.name ++ ")"
  | .null => "Null"
  | .nonNull => "NonNull"
  | .sameReference => "ACmpEq"
  | .otherReference => "ACmpNe"

def mnemonic : Condition → String
  | .always => "goto"
  | .zero c => "if" ++ c.suffix
  | .ints c => "if_icmp" ++ c.suffix
  | .null => "ifnull"
  | .nonNull => "ifnonnull"
  | .sameReference => "if_acmpeq"
  | .otherReference => "if_acmpne"

def all : List Condition :=
  [.always, .null, .nonNull, .sameReference, .otherReference] ++ Comparison.all.map .zero ++
    Comparison.all.map .ints

def ofMnemonic? (mnemonic : String) : Option Condition := all.find? fun c => c.mnemonic = mnemonic

end Condition

def NanSide.letter : NanSide → String
  | .less => "l"
  | .greater => "g"

namespace Arith

def all : List Arith := [.add, .sub, .mul, .div, .rem, .neg, .and, .or, .xor, .shl, .shr, .ushr]

def name : Arith → String
  | .add => "add"
  | .sub => "sub"
  | .mul => "mul"
  | .div => "div"
  | .rem => "rem"
  | .neg => "neg"
  | .and => "and"
  | .or => "or"
  | .xor => "xor"
  | .shl => "shl"
  | .shr => "shr"
  | .ushr => "ushr"

def ofName? (name : String) : Option Arith := all.find? fun a => a.name = name

end Arith

def Narrowing.letter : Narrowing → String
  | .byte => "b"
  | .char => "c"
  | .short => "s"

def Dispatch.mnemonic : Dispatch → String
  | .virtual => "invokevirtual"
  | .special => "invokespecial"
  | .static => "invokestatic"
  | .interface => "invokeinterface"

def intText (n : Int32) : String := toString n.toInt

def longText (n : Int64) : String := toString n.toInt

def floatText (l : Decimal.Layout) (bits : UInt32) : String := l.text Decimal.single bits.toNat

def doubleText (l : Decimal.Layout) (bits : UInt64) : String := l.text Decimal.double bits.toNat

namespace Constant

def shown : Constant → String
  | .int value => "Int(" ++ intText value ++ ")"
  | .long value => "Long(" ++ longText value ++ ")"
  | .float bits => "Float(" ++ floatText Decimal.constantLayout bits ++ ")"
  | .double bits => "Double(" ++ doubleText Decimal.constantLayout bits ++ ")"
  | .string value => "String(" ++ Text.quoted value ++ ")"
  | .classLiteral name => "Class(" ++ Text.quoted name ++ ")"
  | .null => "Null"

def text : Constant → String
  | .int value => "ldc " ++ intText value
  | .long value => "ldc2_w " ++ longText value ++ "L"
  | .float bits => "ldc " ++ floatText Decimal.constantLayout bits ++ "F"
  | .double bits => "ldc2_w " ++ doubleText Decimal.constantLayout bits ++ "D"
  | .string value => "ldc " ++ Text.quoted value
  | .classLiteral name => "ldc " ++ name ++ ".class"
  | .null => "aconst_null"

end Constant

namespace MemberRef

def fieldText (f : MemberRef) : String := f.owner ++ "." ++ f.name ++ " " ++ f.desc

def methodText (m : MemberRef) : String := m.owner ++ "." ++ m.name ++ m.desc

end MemberRef

namespace Insn

def isTerminal : Insn → Bool
  | .jump .always _ | .tableSwitch .. | .lookupSwitch .. | .leave _ | .throwTop => true
  | _ => false

def text : Insn → String
  | .const value => value.text
  | .load kind slot => kind.letter ++ "load " ++ toString slot
  | .store kind slot => kind.letter ++ "store " ++ toString slot
  | .arrayLoad kind => kind.letter ++ "aload"
  | .arrayStore kind => kind.letter ++ "astore"
  | .pop => "pop"
  | .pop2 => "pop2"
  | .dup => "dup"
  | .arith op kind => kind.letter ++ op.name
  | .convert source target => source.letter ++ "2" ++ target.letter
  | .narrow width => "i2" ++ width.letter
  | .compareLong => "lcmp"
  | .compareFloat nan => "fcmp" ++ nan.letter
  | .compareDouble nan => "dcmp" ++ nan.letter
  | .jump condition target => condition.mnemonic ++ " " ++ target.text
  | .tableSwitch low fallback targets =>
    "tableswitch " ++ intText low ++ String.join (targets.map fun t => " " ++ t.text) ++
      " default: " ++ fallback.text
  | .lookupSwitch fallback pairs =>
    "lookupswitch" ++ String.join (pairs.map fun p => " " ++ intText p.1 ++ ": " ++ p.2.text) ++
      " default: " ++ fallback.text
  | .leave none => "return"
  | .leave (some kind) => kind.letter ++ "return"
  | .getStatic field => "getstatic " ++ field.fieldText
  | .putStatic field => "putstatic " ++ field.fieldText
  | .getField field => "getfield " ++ field.fieldText
  | .putField field => "putfield " ++ field.fieldText
  | .invoke dispatch method => dispatch.mnemonic ++ " " ++ method.methodText
  | .new className => "new " ++ className
  | .newArray element =>
    if element.isReference then "anewarray " ++ element.internalName
    else "newarray " ++ element.sourceText
  | .arrayLength => "arraylength"
  | .throwTop => "athrow"
  | .checkCast className => "checkcast " ++ className
  | .instanceOf className => "instanceof " ++ className
  | .monitorEnter => "monitorenter"
  | .monitorExit => "monitorexit"

end Insn

inductive Event where
  | label (l : Label)
  | insn (i : Insn)
deriving DecidableEq

end Restack
