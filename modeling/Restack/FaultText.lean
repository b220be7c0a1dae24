import Restack.Fault

namespace Restack

open Text (hex hexPadded offsetText addressText)

def WordFormat.text : WordFormat → String
  | .u1 => "u1"
  | .u2 => "u2"
  | .u4 => "u4"
  | .uleb128 => "uleb128"
  | .sleb128 => "sleb128"
  | .uleb128p1 => "uleb128p1"

namespace Table

def fileName : Table → String
  | .strings => "string_ids"
  | .types => "type_ids"
  | .protos => "proto_ids"
  | .fields => "field_ids"
  | .methods => "method_ids"
  | .classes => "class_defs"

def one : Table → String
  | .strings => "string"
  | .types => "type"
  | .protos => "proto"
  | .fields => "field"
  | .methods => "method"
  | .classes => "class def"

def capitalOne : Table → String
  | .strings => "String"
  | .types => "Type"
  | .protos => "Proto"
  | .fields => "Field"
  | .methods => "Method"
  | .classes => "Class def"

def many : Table → String
  | .strings => "strings"
  | .types => "types"
  | .protos => "protos"
  | .fields => "fields"
  | .methods => "methods"
  | .classes => "classes"

end Table

def num (n : Nat) : String := toString n

def bytesText (bytes : List UInt8) : String :=
  "[" ++ ", ".intercalate (bytes.map fun b => hexPadded 2 b.toNat) ++ "]"

def regName (r : Nat) : String := "v" ++ num r

namespace Malformed

def text : Malformed → String
  | .endOfStream format offset =>
    "Unexpected end of stream reading " ++ format.text ++ " at offset " ++ offsetText offset
  | .shortBuffer length offset =>
    "Buffer too short reading " ++ num length ++ " bytes at offset " ++ offsetText offset
  | .headerTooShort size => "Not enough bytes for header: " ++ num size ++ " < 0x70"
  | .badMagic magic => "Invalid magic value " ++ bytesText magic ++ " at offset 0x0"
  | .byteSwapped tag =>
    "Byte-swapped DEX files are not supported (endian tag 0x" ++ hexPadded 8 tag ++ " at offset 0x28)"
  | .badEndianTag tag => "Invalid endian tag 0x" ++ hexPadded 8 tag ++ " at offset 0x28"
  | .badHeaderSize size => "Unexpected header size " ++ offsetText size ++ " at offset 0x24"
  | .fileSizeTooLarge declared actual =>
    "Declared file size " ++ offsetText declared ++ " exceeds buffer length " ++ offsetText actual
  | .badStringData offset => "Malformed MUTF-8 string data at offset " ++ offsetText offset
  | .stringLength offset declared decoded =>
    "String length mismatch at offset " ++ offsetText offset ++ ": declared " ++ num declared ++
      ", decoded " ++ num decoded
  | .tablePastEnd table offset size =>
    "Table " ++ table.fileName ++ " at offset " ++ offsetText offset ++ " with " ++ num size ++
      " entries runs past the end of the file"
  | .emptyTypeName row offset =>
    "Empty type descriptor for type_ids[" ++ num row ++ "] at offset " ++ offsetText offset
  | .typeNameOutOfRange index row offset =>
    "String index " ++ num index ++ " out of range for type_ids[" ++ num row ++ "] at offset " ++
      offsetText offset
  | .rowIndexOutOfRange table index size offset =>
    table.one ++ " index " ++ num index ++ " out of range (" ++ num size ++ " entries) at offset " ++
      offsetText offset
  | .duplicateClass descriptor offset =>
    "Duplicate class definition " ++ descriptor ++ " at offset " ++ offsetText offset
  | .outOfRange table index size =>
    table.capitalOne ++ " index " ++ num index ++ " out of range (" ++ num size ++ " " ++ table.many ++ ")"
  | .insExceedRegisters ins registers offset =>
    "ins_size " ++ num ins ++ " exceeds registers_size " ++ num registers ++ " in code_item at " ++
      offsetText offset
  | .codePastEnd offset =>
    "Instructions of code_item at " ++ offsetText offset ++ " run past the end of the file"
  | .missingHandler start handler offset =>
    "Try at " ++ offsetText start ++ " references missing handler offset " ++ num handler ++
      " in code_item at " ++ offsetText offset
  | .tryPastEnd start offset =>
    "Try at " ++ offsetText start ++ " extends past the end of code_item at " ++ offsetText offset
  | .valueTooWide type size offset =>
    "Encoded value type 0x" ++ hexPadded 2 type ++ " with size " ++ num size ++ " at offset " ++
      offsetText offset
  | .unknownValueType type offset =>
    "Unknown encoded value type 0x" ++ hexPadded 2 type ++ " at offset " ++ offsetText offset
  | .unknownVisibility value => "Unknown annotation visibility 0x" ++ hexPadded 2 value
  | .offsetsPastEnd size offset =>
    "Offset list of " ++ num size ++ " entries at " ++ offsetText offset ++ " runs past the end of the file"
  | .directoryPastEnd offset =>
    "Annotations directory at " ++ offsetText offset ++ " runs past the end of the file"
  | .badType text => "Malformed type descriptor '" ++ text ++ "'"
  | .badMethodType text => "Malformed method descriptor '" ++ text ++ "'"

end Malformed

namespace Context

def text : Context → String
  | .row table index => table.fileName ++ "[" ++ num index ++ "]"
  | .typeList offset => "type_list at " ++ offsetText offset
  | .catchHandler index codeItem =>
    "catch handler " ++ num index ++ " of code_item at " ++ offsetText codeItem
  | .classData descriptor => "class_data of " ++ descriptor
  | .staticValues descriptor => "static_values of " ++ descriptor
  | .annotationsDirectory descriptor => "annotations_directory of " ++ descriptor
  | .annotationItem offset => "annotation_item at " ++ offsetText offset
  | .instruction name address => name ++ " at " ++ addressText address
  | .debugInfo offset => "debug_info_item at " ++ offsetText offset
  | .register number => regName number
  | .method owner name descriptor => owner ++ "->" ++ name ++ descriptor
  | .definition descriptor => "class " ++ descriptor

def chain : List Context → String
  | [] => ""
  | first :: rest => " for " ++ first.text ++ String.join (rest.map fun c => " of " ++ c.text)

end Context

namespace Inexpressible

def text : Inexpressible → String
  | .truncated what address need left =>
    "Truncated " ++ what ++ " at " ++ addressText address ++ ": need " ++ num need ++ " code units, have " ++
      num left
  | .unknownOpcode value address => "Unknown opcode 0x" ++ hexPadded 2 value ++ " at " ++ addressText address
  | .tooManyRegisters name address count =>
    name ++ " at " ++ addressText address ++ " has " ++ num count ++ " registers"
  | .targetOutside target address =>
    "Target " ++ toString target ++ " of instruction at " ++ addressText address ++ " is outside the method"
  | .noPayload address user =>
    "No payload at " ++ addressText address ++ " for instruction at " ++ addressText user
  | .unsortedKeys address => "Sparse switch keys at " ++ addressText address ++ " are not sorted"
  | .payloadPastCode user => "Payload offset of instruction at " ++ addressText user ++ " points past the code"
  | .lastPayloadPastCode => "Last payload runs past the end of the code"
  | .wrongPayload user expected address found =>
    "Instruction at " ++ addressText user ++ " expects a " ++ expected.text ++ " but " ++ addressText address ++
      " holds a " ++ found.text
  | .targetNotInstruction address => "Branch target " ++ addressText address ++ " is not an instruction"
  | .tryNotInstruction address => "Try block start " ++ addressText address ++ " is not an instruction"
  | .tryPastCode address => "Try block at " ++ addressText address ++ " runs past the end of the code"
  | .handlerNotInstruction address => "Handler " ++ addressText address ++ " is not an instruction"
  | .branchIntoData address => "Branch to " ++ addressText address ++ " lands on in-code data"
  | .noLabel address => "No label at " ++ addressText address
  | .labelWithoutPayload address => "Label at " ++ addressText address ++ " carries no payload"
  | .payloadIsSwitch address =>
    "fill-array-data at " ++ addressText address ++ " refers to a switch table"
  | .payloadMismatch name address => name ++ " at " ++ addressText address ++ " refers to the wrong payload kind"
  | .badDebugInfo cause contexts => "Bad debug info: " ++ cause.text ++ Context.chain contexts
  | .debugUnterminated => "Debug program ran out of bytes before DBG_END_SEQUENCE"
  | .debugAddressOverflow delta address =>
    "DBG_ADVANCE_PC by " ++ num delta ++ " overflows address " ++ addressText address
  | .debugNoLocal register address =>
    "DBG_END_LOCAL for " ++ regName register ++ " at " ++ addressText address ++ " with no open local"
  | .debugSpecialOverflow opcode address =>
    "Special opcode 0x" ++ hexPadded 2 opcode ++ " overflows address " ++ addressText address
  | .debugBadLine line address =>
    "Line number " ++ toString line ++ " at " ++ addressText address ++ " is negative"
  | .outsideFrame register size =>
    "Register " ++ regName register ++ " is outside the frame of " ++ num size
  | .stateOutsideFrame register state size =>
    "Register " ++ regName register ++ " (" ++ state.text ++ ") is outside the frame of " ++ num size
  | .frameSizes here there =>
    "Frames of " ++ num here ++ " and " ++ num there ++ " registers cannot be merged"
  | .conflict here there =>
    "Conflicting register types " ++ here.text ++ " and " ++ there.text ++ " at a join"
  | .siteNotInstruction site => "Patch site " ++ num site ++ " is not an instruction"
  | .insExceedFrame ins registers =>
    num ins ++ " incoming registers exceed the frame of " ++ num registers
  | .groupIsVoid => "Register resolved to void"
  | .slotWidth kind type => "Cannot retype a " ++ kind.name ++ " slot as " ++ type.text
  | .constantUse value type => "Constant " ++ value.shown ++ " cannot be used as " ++ type.text
  | .branchUse condition type => "Branch " ++ condition.name ++ " cannot compare " ++ type.text
  | .notRetypeable insn => "Instruction " ++ insn.text ++ " is not retypeable"
  | .tryWithoutHandler address handler =>
    "Try block at " ++ addressText address ++ " has no handler at offset " ++ num handler
  | .readTooEarly register type =>
    regName register ++ " is read as " ++ type.text ++ " before it holds a value"
  | .openWidth register state type =>
    regName register ++ " holds a " ++ state.text ++ " value but is read as " ++ type.text
  | .copyTooEarly register => regName register ++ " is read before it holds a value"
  | .kindMismatch register held want =>
    regName register ++ " holds a " ++ held.name ++ " value but is read as " ++ want.name
  | .storeUnknown register => "Cannot store an unknown value into " ++ regName register
  | .notArrayType register type => regName register ++ " of type " ++ type.text ++ " is not an array"
  | .notArray register state => regName register ++ " is used as an array but holds " ++ state.text
  | .moveWidth wide register state =>
    "move" ++ (if wide then "-wide" else "") ++ " of " ++ regName register ++ " holding " ++ state.text
  | .noResult register => "move-result into " ++ regName register ++ " without a preceding result"
  | .resultWidth type => "move-result of the wrong width for " ++ type.text
  | .noException register => "move-exception into " ++ regName register ++ " outside of a handler"
  | .newNonArray type => "new-array of non-array type " ++ type.text
  | .filledNonArray type => "filled-new-array of non-array type " ++ type.text
  | .orderOfReferences op left right =>
    op.name ++ " on references " ++ regName left ++ ", " ++ regName right
  | .orderOfReference op register => op.name ++ "z on reference " ++ regName register
  | .missingArguments op owner name =>
    op.name ++ " " ++ owner.text ++ "->" ++ name ++ " is missing arguments"
  | .argumentCount op count name signature =>
    op.name ++ " passes " ++ num count ++ " registers to " ++ name ++ signature.text
  | .fillNonArray register state => "fill-array-data on " ++ regName register ++ " holding " ++ state.text
  | .fillElement type => "fill-array-data on an array of " ++ type.text
  | .fillWidth width type =>
    "fill-array-data with " ++ num width ++ "-byte elements for an array of " ++ type.text
  | .incomingRegisters signature ins taken =>
    "Method " ++ signature.text ++ " declares " ++ num ins ++ " incoming registers but its arguments take " ++
      num taken
  | .registerType type => "A register cannot hold " ++ type.text
  | .elementType type => "Arrays cannot hold " ++ type.text
  | .unsupported name => name ++ " has no stack-machine equivalent"
  | .noEntryLabel => "Method has no entry label"

end Inexpressible

def Cause.text : Cause → String
  | .malformed cause => cause.text
  | .inexpressible cause => cause.text
  | .overflow => "Arithmetic overflow"

def Fault.message (f : Fault) : String := f.cause.text ++ Context.chain f.contexts

end Restack
