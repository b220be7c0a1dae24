import Restack.Lowering.Step
import Restack.Body.Decoded

namespace Restack.Lowering

def takesPending : Instruction → Bool
  | .moveResult .. | .moveException _ => true
  | _ => false

def endsTerminal (d : Draft) : Bool :=
  match d.events.back? with
  | some (.insn i) => i.isTerminal
  | _ => false

-- What registers hold at a label: what all paths agree on. A label that only branches further
-- down come to is taken to be as it is left from above.
def enterLabel (label : Label) (isTarget : Bool) (s : State) : Except Fault State :=
  match s.joins.get? label.number with
  | some stored =>
    if s.terminal then .ok { s with frame := stored }
    else do
      let (stored, draft) ← stored.merge s.frame .branch s.draft
      return { s with draft, frame := stored, joins := NatMap.insert label.number stored s.joins }
  | none => .ok (if isTarget then { s with joins := NatMap.insert label.number s.frame s.joins } else s)

-- Places a label. Nothing stays on the stack where paths meet, except an exception that is
-- caught here.
def placeLabel (p : Plan) (address : Nat) (label : Label) (s : State) : Except Fault State := do
  let marked := ((p.labels.entry? address).map LabelEntry.jumpTarget).getD false
  let isTarget := marked || s.joins.contains label.number
  let s := if isTarget then s.discardPending else s
  let s ← enterLabel label isTarget { s with draft := s.draft.push (.label label) }
  let pending := (p.handlers.caught.get? label.number).or s.pending
  return { s with pending, terminal := false }

-- Lowers the instruction at an address. Its handlers see the registers as they are before it.
def placeInstruction (p : Plan) (address : Nat) (opcode : Opcode) (i : Instruction) (s : State) :
    Except Fault State := do
  let s := if takesPending i then s else s.discardPending
  let s ← s.arriveAll (p.handlers.covering address) .handler
  let s ← within (.instruction opcode.name address) (step p i s)
  return { s with terminal := endsTerminal s.draft }

def place (p : Plan) (s : State) : BodyItem → Except Fault State
  | .label address label => placeLabel p address label s
  | .instruction address opcode i => placeInstruction p address opcode i s

def finish (p : Plan) (start : State) (body : DecodedBody) : Except Fault State := do
  let s ← body.foldlM (place p) start
  let draft ← s.draft.resolveDefaults
  return { s with draft }

def lower (p : Plan) (start : State) (body : DecodedBody) : Except Fault (List Event) := do
  return (← finish p start body).draft.events.toList

end Restack.Lowering
