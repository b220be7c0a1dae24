import Restack.Register.Opcode
import Restack.Frame.State

namespace Restack

-- Faults are causes with the places they passed through. A malformed container
-- is one kind of cause; code that is well formed but has no stack equivalent
-- is another, and only that kind may be answered with a stub. The texts of all
-- of them are in `Restack.FaultText`.

inductive WordFormat where
  | u1 | u2 | u4 | uleb128 | sleb128 | uleb128p1
deriving DecidableEq, Repr

inductive Table where
  | strings | types | protos | fields | methods | classes
deriving DecidableEq, Repr

inductive Malformed where
  | endOfStream (format : WordFormat) (offset : Nat)
  | shortBuffer (length offset : Nat)
  | headerTooShort (size : Nat)
  | badMagic (magic : List UInt8)
  | byteSwapped (tag : Nat)
  | badEndianTag (tag : Nat)
  | badHeaderSize (size : Nat)
  | fileSizeTooLarge (declared actual : Nat)
  | badStringData (offset : Nat)
  | stringLength (offset declared decoded : Nat)
  | tablePastEnd (table : Table) (offset size : Nat)
  | emptyTypeName (row offset : Nat)
  | typeNameOutOfRange (index row offset : Nat)
  | rowIndexOutOfRange (table : Table) (index size offset : Nat)
  | duplicateClass (descriptor : String) (offset : Nat)
  | outOfRange (table : Table) (index size : Nat)
  | insExceedRegisters (ins registers offset : Nat)
  | codePastEnd (offset : Nat)
  | missingHandler (start handler offset : Nat)
  | tryPastEnd (start offset : Nat)
  | valueTooWide (type size offset : Nat)
  | unknownValueType (type offset : Nat)
  | unknownVisibility (value : Nat)
  | offsetsPastEnd (size offset : Nat)
  | directoryPastEnd (offset : Nat)
  | badType (text : String)
  | badMethodType (text : String)
deriving DecidableEq, Repr

inductive Context where
  | row (table : Table) (index : Nat)
  | typeList (offset : Nat)
  | catchHandler (index codeItem : Nat)
  | classData (descriptor : String)
  | staticValues (descriptor : String)
  | annotationsDirectory (descriptor : String)
  | annotationItem (offset : Nat)
  | instruction (name : String) (address : Nat)
  | debugInfo (offset : Nat)
  | register (number : Nat)
  | method (owner name descriptor : String)
  | definition (descriptor : String)
deriving DecidableEq, Repr

inductive PayloadKind where
  | packedSwitch | sparseSwitch | arrayData
deriving DecidableEq, Repr

def PayloadKind.text : PayloadKind → String
  | .packedSwitch => "packed-switch-payload"
  | .sparseSwitch => "sparse-switch-payload"
  | .arrayData => "fill-array-data-payload"

inductive Inexpressible where
  | truncated (what : String) (address need left : Nat)
  | unknownOpcode (value address : Nat)
  | tooManyRegisters (name : String) (address count : Nat)
  | targetOutside (target : Int) (address : Nat)
  | noPayload (address user : Nat)
  | unsortedKeys (address : Nat)
  | payloadPastCode (user : Nat)
  | lastPayloadPastCode
  | wrongPayload (user : Nat) (expected : PayloadKind) (address : Nat) (found : PayloadKind)
  | targetNotInstruction (address : Nat)
  | tryNotInstruction (address : Nat)
  | tryPastCode (address : Nat)
  | handlerNotInstruction (address : Nat)
  | branchIntoData (address : Nat)
  | noLabel (address : Nat)
  | labelWithoutPayload (address : Nat)
  | payloadIsSwitch (address : Nat)
  | payloadMismatch (name : String) (address : Nat)
  | badDebugInfo (cause : Malformed) (contexts : List Context)
  | debugUnterminated
  | debugAddressOverflow (delta address : Nat)
  | debugNoLocal (register address : Nat)
  | debugSpecialOverflow (opcode address : Nat)
  | debugBadLine (line : Int) (address : Nat)
  | outsideFrame (register size : Nat)
  | stateOutsideFrame (register : Nat) (state : RegisterState) (size : Nat)
  | frameSizes (here there : Nat)
  | conflict (here there : RegisterState)
  | siteNotInstruction (site : Nat)
  | insExceedFrame (ins registers : Nat)
  | groupIsVoid
  | slotWidth (kind : Kind) (type : Descriptor)
  | constantUse (value : Constant) (type : Descriptor)
  | branchUse (condition : Condition) (type : Descriptor)
  | notRetypeable (insn : Insn)
  | tryWithoutHandler (address handler : Nat)
  | readTooEarly (register : Nat) (type : Descriptor)
  | openWidth (register : Nat) (state : RegisterState) (type : Descriptor)
  | copyTooEarly (register : Nat)
  | kindMismatch (register : Nat) (held want : Kind)
  | storeUnknown (register : Nat)
  | notArrayType (register : Nat) (type : Descriptor)
  | notArray (register : Nat) (state : RegisterState)
  | moveWidth (wide : Bool) (register : Nat) (state : RegisterState)
  | noResult (register : Nat)
  | resultWidth (type : Descriptor)
  | noException (register : Nat)
  | newNonArray (type : Descriptor)
  | filledNonArray (type : Descriptor)
  | orderOfReferences (op : TestOp) (left right : Nat)
  | orderOfReference (op : TestOp) (register : Nat)
  | missingArguments (op : InvokeOp) (owner : Descriptor) (name : String)
  | argumentCount (op : InvokeOp) (count : Nat) (name : String) (signature : MethodDescriptor)
  | fillNonArray (register : Nat) (state : RegisterState)
  | fillElement (type : Descriptor)
  | fillWidth (width : Nat) (type : Descriptor)
  | incomingRegisters (signature : MethodDescriptor) (ins taken : Nat)
  | registerType (type : Descriptor)
  | elementType (type : Descriptor)
  | unsupported (name : String)
  | noEntryLabel

inductive Cause where
  | malformed (cause : Malformed)
  | inexpressible (cause : Inexpressible)
  | overflow

structure Fault where
  cause : Cause
  contexts : List Context

namespace Fault

def within (f : Fault) (c : Context) : Fault := { f with contexts := f.contexts ++ [c] }

def isInexpressible (f : Fault) : Bool :=
  match f.cause with
  | .inexpressible _ => true
  | _ => false

end Fault

def reject {α : Type} (cause : Malformed) : Except Fault α := .error ⟨.malformed cause, []⟩

def refuse {α : Type} (cause : Inexpressible) : Except Fault α := .error ⟨.inexpressible cause, []⟩

def within {α : Type} (c : Context) : Except Fault α → Except Fault α
  | .ok value => .ok value
  | .error f => .error (f.within c)

end Restack
