import Restack.Container.Reference
import Restack.Body.Labels
import Restack.Frame.Basic
import Restack.Frame.Slots

namespace Restack

structure MethodShape where
  owner : Descriptor
  isStatic : Bool
  signature : MethodDescriptor
deriving DecidableEq, Repr

structure TryBlock where
  start : Label
  stop : Label
  handler : Label
  catchType : Option String
deriving DecidableEq, Repr

namespace Lowering

def throwable : Descriptor := .object "java/lang/Throwable"

structure Covered where
  start : Nat
  stop : Nat
  handlers : List Label
deriving DecidableEq, Repr

structure Handlers where
  blocks : List TryBlock := []
  -- Latest first: where ranges overlap, the later one counts.
  covered : List Covered := []
  caught : NatMap Descriptor := []
deriving DecidableEq, Repr

namespace Handlers

def covering (h : Handlers) (address : Nat) : List Label :=
  match h.covered.find? fun range => range.start ≤ address && address < range.stop with
  | some range => range.handlers
  | none => []

-- A handler of two types finds any exception.
def noteCaught (caught : NatMap Descriptor) (handler : Label) (type : Descriptor) : NatMap Descriptor :=
  match caught.get? handler.number with
  | none => NatMap.insert handler.number type caught
  | some known => if known = type then caught else NatMap.insert handler.number throwable caught

def labelAt (labels : LabelTable) (address : Nat) : Except Fault Label :=
  match labels.labelAt? address with
  | some label => .ok label
  | none => refuse (.noLabel address)

structure Target where
  handler : Label
  descriptor : Option String
  type : Descriptor

def target (labels : LabelTable) (pair : Option String × Nat) : Except Fault Target := do
  let handler ← labelAt labels pair.2
  match pair.1 with
  | none => return { handler, descriptor := none, type := throwable }
  | some descriptor => return { handler, descriptor := some descriptor, type := ← Descriptor.ofText descriptor }

def pairs (c : Container) (handler : CatchHandler) : Except Fault (List (Option String × Nat)) := do
  let typed ← handler.typed.mapM fun h => do return (some (← c.type h.type), h.address.toNat)
  return typed ++ handler.catchAll.toList.map fun address => (none, address.toNat)

def add (c : Container) (code : CodeItem) (labels : LabelTable) (h : Handlers) (item : TryItem) :
    Except Fault Handlers := do
  match code.handlerFor item with
  | none => refuse (.tryWithoutHandler item.start.toNat item.handler.toNat)
  | some handler =>
    let first := item.start.toNat
    let past ← item.stop
    let start ← labelAt labels first
    let stop ← labelAt labels (labels.snap past)
    let targets ← (← pairs c handler).mapM (target labels)
    let block (t : Target) : TryBlock :=
      { start, stop, handler := t.handler, catchType := t.descriptor.map fun _ => t.type.internalName }
    return {
      blocks := h.blocks ++ targets.map block
      covered := if first < past then ⟨first, past, targets.map Target.handler⟩ :: h.covered else h.covered
      caught := targets.foldl (fun caught t => noteCaught caught t.handler t.type) h.caught }

def ofCode (c : Container) (code : CodeItem) (labels : LabelTable) : Except Fault Handlers :=
  code.tries.foldlM (add c code labels) {}

end Handlers

def enterArgument (state : Frame × Nat) (type : Descriptor) : Except Fault (Frame × Nat) := do
  return (← state.1.set state.2 (.typed type), state.2 + type.slots)

-- Receiver and arguments fill the last registers exactly.
def entryFrame (shape : MethodShape) (slots : Slots) : Except Fault Frame := do
  let empty := Frame.ofSize slots.registers
  let (f, register) ←
    if shape.isStatic then pure (empty, slots.firstIn)
    else do pure (← empty.set slots.firstIn (.typed shape.owner), slots.firstIn + 1)
  let (f, register) ← shape.signature.args.foldlM enterArgument (f, register)
  if register ≠ slots.registers then
    refuse (.incomingRegisters shape.signature slots.ins (register - slots.firstIn))
  return f

structure Plan where
  shape : MethodShape
  labels : LabelTable
  slots : Slots
  handlers : Handlers

structure State where
  draft : Draft := {}
  frame : Frame
  joins : NatMap Frame := []
  pending : Option Descriptor := none
  terminal : Bool := false

def prepare (c : Container) (shape : MethodShape) (code : CodeItem) (labels : LabelTable) :
    Except Fault (Plan × State) := do
  let slots ← Slots.ofCounts code.registers.toNat code.ins.toNat
  let frame ← entryFrame shape slots
  let handlers ← Handlers.ofCode c code labels
  return ({ shape, labels, slots, handlers }, { frame })

end Lowering

end Restack
