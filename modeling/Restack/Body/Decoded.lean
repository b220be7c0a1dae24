import Restack.Container.Reference
import Restack.Body.Labels

namespace Restack

inductive BodyItem where
  | label (address : Nat) (label : Label)
  | instruction (address : Nat) (opcode : Opcode) (instruction : Instruction)

structure DecodedBody where
  items : List BodyItem
  ending : Except Fault Unit

namespace LabelTable

def branchLabel (t : LabelTable) (address : Nat) : Except Fault Label :=
  match t.entry? address with
  | some { label, payload := none, .. } => .ok label
  | some _ => refuse (.branchIntoData address)
  | none => refuse (.noLabel address)

def payloadAt (t : LabelTable) (address : Nat) : Except Fault Payload :=
  match (t.entry? address).bind LabelEntry.payload with
  | some payload => .ok payload
  | none => refuse (.labelWithoutPayload address)

end LabelTable

namespace Encoded

def target (e : Encoded) (t : LabelTable) (pc : Nat) : Except Fault Nat :=
  Payload.target pc e.operands.literal t.stop

def branch (e : Encoded) (t : LabelTable) (pc : Nat) : Except Fault Label := do t.branchLabel (← e.target t pc)

def int (e : Encoded) : Int32 := Int32.ofInt e.operands.literal

def pool (e : Encoded) : UInt32 := UInt32.ofNat e.operands.index

def resolve (e : Encoded) (c : Container) (t : LabelTable) (pc : Nat) : Except Fault Instruction := do
  let next := pc + e.units
  match e.opcode.operation with
  | .nop => return .nop
  | .move kind => return .move kind (e.reg 0) (e.reg 1)
  | .moveResult kind => return .moveResult kind (e.reg 0)
  | .moveException => return .moveException (e.reg 0)
  | .returnVoid => return .returnVoid
  | .returnValue kind => return .returnValue kind (e.reg 0)
  | .const => return .const (e.reg 0) e.int
  | .constWide => return .constWide (e.reg 0) (Int64.ofInt e.operands.literal)
  | .constString => return .constString (e.reg 0) (← c.string e.pool)
  | .constClass => return .constClass (e.reg 0) (← c.typeReference e.pool)
  | .monitorEnter => return .monitorEnter (e.reg 0)
  | .monitorExit => return .monitorExit (e.reg 0)
  | .checkCast => return .checkCast (e.reg 0) (← c.typeReference e.pool)
  | .instanceOf => return .instanceOf (e.reg 0) (e.reg 1) (← c.typeReference e.pool)
  | .arrayLength => return .arrayLength (e.reg 0) (e.reg 1)
  | .newInstance => return .newInstance (e.reg 0) (← c.typeReference e.pool)
  | .newArray => return .newArray (e.reg 0) (e.reg 1) (← c.typeReference e.pool)
  | .filledNewArray => return .filledNewArray e.operands.registers (← c.typeReference e.pool)
  | .fillArrayData =>
    match ← t.payloadAt (← e.target t pc) with
    | .arrayData data => return .fillArrayData (e.reg 0) data
    | _ => refuse (.payloadIsSwitch pc)
  | .throwValue => return .throwValue (e.reg 0)
  | .goto => return .goto (← e.branch t pc)
  | .packedSwitch =>
    match ← t.payloadAt (← e.target t pc) with
    | .packedSwitch firstKey targets =>
      let cases ← targets.mapM t.branchLabel
      return .packedSwitch (e.reg 0) firstKey cases (← t.branchLabel next)
    | _ => refuse (.payloadMismatch e.opcode.name pc)
  | .sparseSwitch =>
    match ← t.payloadAt (← e.target t pc) with
    | .sparseSwitch keys targets =>
      let cases ← (keys.zip targets).mapM fun (key, address) => do return (key, ← t.branchLabel address)
      return .sparseSwitch (e.reg 0) cases (← t.branchLabel next)
    | _ => refuse (.payloadMismatch e.opcode.name pc)
  | .compare op => return .compare op (e.reg 0) (e.reg 1) (e.reg 2)
  | .test op => return .test op (e.reg 0) (e.reg 1) (← e.branch t pc)
  | .testZero op => return .testZero op (e.reg 0) (← e.branch t pc)
  | .arrayGet op => return .arrayGet op (e.reg 0) (e.reg 1) (e.reg 2)
  | .arrayPut op => return .arrayPut op (e.reg 0) (e.reg 1) (e.reg 2)
  | .instanceGet op => return .instanceGet op (e.reg 0) (e.reg 1) (← c.fieldReference e.pool)
  | .instancePut op => return .instancePut op (e.reg 0) (e.reg 1) (← c.fieldReference e.pool)
  | .staticGet op => return .staticGet op (e.reg 0) (← c.fieldReference e.pool)
  | .staticPut op => return .staticPut op (e.reg 0) (← c.fieldReference e.pool)
  | .invoke op => return .invoke op e.operands.registers (← c.methodReference e.pool)
  | .unary op => return .unary op (e.reg 0) (e.reg 1)
  | .binary op => return .binary op (e.reg 0) (e.reg 1) (e.reg 2)
  | .binaryInPlace op => return .binary op (e.reg 0) (e.reg 0) (e.reg 1)
  | .binaryLiteral op => return .binaryLiteral op (e.reg 0) (e.reg 1) e.int
  | .reverseSubtract => return .reverseSubtract (e.reg 0) (e.reg 1) e.int
  | .unsupported => return .unsupported e.opcode.name

end Encoded

namespace DecodedBody

def labelItems (t : LabelTable) (address : Nat) : List BodyItem :=
  ((t.labelAt? address).map (BodyItem.label address)).toList

def prepend (items : List BodyItem) (body : DecodedBody) : DecodedBody := { body with items := items ++ body.items }

def ofBlocks (c : Container) (t : LabelTable) (after : DecodedBody) : List Block → DecodedBody
  | [] => after
  | .data .. :: rest => ofBlocks c t after rest
  | .instruction pc e :: rest =>
    match within (.instruction e.opcode.name pc) (e.resolve c t pc) with
    | .error f => ⟨labelItems t pc, .error f⟩
    | .ok instruction =>
      prepend (labelItems t pc ++ [.instruction pc e.opcode instruction]) (ofBlocks c t after rest)

def last (t : LabelTable) (walk : Walk) : DecodedBody :=
  match walk.ending with
  | .error f => ⟨[], .error f⟩
  | .ok _ => ⟨[.label t.stop t.stopLabel], .ok ()⟩

def ofCode (c : Container) (code : CodeUnits) (t : LabelTable) : DecodedBody :=
  let walk := Walk.ofCode code
  ofBlocks c t (last t walk) walk.blocks

-- Feeds the items to `f` one after the other. A fault of `f` comes before one of the body.
def foldlM {σ : Type} (f : σ → BodyItem → Except Fault σ) (state : σ) (body : DecodedBody) : Except Fault σ := do
  let state ← body.items.foldlM f state
  body.ending
  return state

end DecodedBody

end Restack
