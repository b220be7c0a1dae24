import Restack.Settings
import Restack.Body.DebugInfo
import Restack.Lowering.Body

namespace Restack

structure LocalVar where
  name : String
  desc : String
  signature : Option String
  start : Label
  stop : Label
  slot : Nat
deriving DecidableEq, Repr

structure Code where
  tryBlocks : List TryBlock := []
  events : List Event := []
  lines : List (Nat × Label) := []
  locals : List LocalVar := []
deriving DecidableEq

namespace Code

def instructions (c : Code) : List Insn :=
  c.events.filterMap fun event =>
    match event with
    | .insn i => some i
    | .label _ => none

def position? (c : Code) (label : Label) : Option Nat := c.events.findIdx? (· = .label label)

def parameterLocals (start stop : Label) : Nat → List Descriptor → List (Option String) → List LocalVar
  | slot, type :: types, name :: names =>
    let here := name.toList.map fun name => { name, desc := type.text, signature := none, start, stop, slot }
    here ++ parameterLocals start stop (slot + type.slots) types names
  | _, _, _ => []

def scopeLocal (slots : Slots) (parameters : List LocalVar) (scope : LocalScope) : Except Fault (List LocalVar) := do
  let slot ← slots.slot scope.register
  if parameters.any fun p => p.slot = slot && p.name = scope.var.name then return []
  let v := scope.var
  return [{ name := v.name, desc := v.descriptor, signature := v.signature, start := scope.start, stop := scope.stop, slot }]

def localsOf (info : DebugInfo) (shape : MethodShape) (slots : Slots) (labels : LabelTable) :
    Except Fault (List LocalVar) :=
  match labels.labelAt? 0 with
  | none => refuse .noEntryLabel
  | some start => do
    let first := if shape.isStatic then 0 else 1
    let parameters := parameterLocals start labels.stopLabel first shape.signature.args info.parameterNames
    let scopes ← info.locals.mapM (scopeLocal slots parameters)
    return parameters ++ scopes.flatten

def debugInfo (c : Container) (item : CodeItem) (sourceFile : Option String) (settings : Settings)
    (labels : LabelTable) : Except Fault (Option DebugInfo × LabelTable) :=
  if settings.emitDebugInfo && item.debugInfo ≠ 0 then do
    let (info, labels) ← DebugInfo.read c item.debugInfo sourceFile labels
    return (some info, labels)
  else .ok (none, labels)

def ofItem (c : Container) (shape : MethodShape) (item : CodeItem) (sourceFile : Option String)
    (settings : Settings) : Except Fault Code := do
  let labels ← LabelTable.scan item
  let (info, labels) ← debugInfo c item sourceFile settings labels
  let (plan, start) ← Lowering.prepare c shape item labels
  let events ← Lowering.lower plan start (DecodedBody.ofCode c item.units labels)
  let code : Code := { tryBlocks := plan.handlers.blocks, events }
  match info with
  | none => return code
  | some info =>
    let lines := info.lines.map fun line => (line.line, line.label)
    return { code with lines, locals := ← localsOf info shape plan.slots labels }

def runtimeException : String := "java/lang/RuntimeException"

def stub (message : String) : Code :=
  let insns : List Insn := [
    .new runtimeException,
    .dup,
    .const (.string message),
    .invoke .special ⟨runtimeException, "<init>", "(Ljava/lang/String;)V"⟩,
    .throwTop]
  { events := insns.map .insn }

end Code

end Restack
