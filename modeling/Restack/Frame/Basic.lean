import Restack.Frame.Draft

namespace Restack

def RegisterState.settled (state : RegisterState) (d : Draft) : RegisterState :=
  match state.group?.bind d.resolution? with
  | some type => .typed type
  | none => state

inductive Arrival where
  | branch
  -- By an exception somewhere in a range. The handler sees registers as they were at many
  -- instructions, so they need not agree.
  | handler
deriving DecidableEq, Repr

structure Frame where
  registers : Array RegisterState
deriving DecidableEq, Repr

namespace Frame

def ofSize (registers : Nat) : Frame := ⟨Array.replicate registers .unknown⟩

def size (f : Frame) : Nat := f.registers.size

def get (f : Frame) (d : Draft) (register : Nat) : Except Fault RegisterState :=
  match f.registers[register]? with
  | some state => .ok (state.settled d)
  | none => refuse (.outsideFrame register f.size)

-- A register that is about to be overwritten from above: if it is the lower half of a pair, the
-- pair is lost.
def loseWide (state : RegisterState) : RegisterState := if state.isWide then .unknown else state

def set (f : Frame) (register : Nat) (state : RegisterState) : Except Fault Frame :=
  if f.size ≤ register || (state.isWide && f.size ≤ register + 1) then
    refuse (.stateOutsideFrame register state f.size)
  else
    let registers := if 0 < register then f.registers.modify (register - 1) loseWide else f.registers
    let registers := if state.isWide then registers.setIfInBounds (register + 1) .unknown else registers
    .ok ⟨registers.setIfInBounds register state⟩

end Frame

namespace Arrival

def conflict (arrival : Arrival) (here there : RegisterState) : Except Fault RegisterState :=
  match arrival with
  | .handler => .ok .unknown
  | .branch => refuse (.conflict here there)

end Arrival

namespace RegisterState

-- Two typed values: equal types stay, references stay references, small ints become ints.
def meetTypes (a b : Descriptor) (arrival : Arrival) : Except Fault RegisterState :=
  if a = b then .ok (.typed a)
  else if a.kind? = b.kind? then
    if a.kind? = some .reference then .ok (.typed a) else .ok (.typed .int)
  else arrival.conflict (.typed a) (.typed b)

-- Two open values of one width become one, except that a handler may see two different ones.
def meetGroups (a b : Group) (rebuilt : Group → RegisterState) (arrival : Arrival) (d : Draft) :
    RegisterState × Draft :=
  if arrival = .handler && !d.same a b then (.unknown, d)
  else
    let (g, d) := d.union a b
    (rebuilt g, d)

def meetOpen (g : Group) (type : Descriptor) (arrival : Arrival) (d : Draft) :
    Except Fault (RegisterState × Draft) :=
  match arrival with
  | .branch => do return (.typed type, ← d.resolve g type)
  | .handler => .ok (.unknown, d)

def meet (here there : RegisterState) (arrival : Arrival) (d : Draft) : Except Fault (RegisterState × Draft) :=
  match here, there with
  | .unknown, _ | _, .unknown => .ok (.unknown, d)
  | .typed a, .typed b => do return (← meetTypes a b arrival, d)
  | .open32 a, .open32 b => .ok (meetGroups a b .open32 arrival d)
  | .open64 a, .open64 b => .ok (meetGroups a b .open64 arrival d)
  | .open32 _, .open64 _ | .open64 _, .open32 _ => do return (← arrival.conflict here there, d)
  | .open32 g, .typed type | .open64 g, .typed type | .typed type, .open32 g | .typed type, .open64 g =>
    if here.isWide = there.isWide then meetOpen g type arrival d
    else do return (← arrival.conflict here there, d)

end RegisterState

namespace Frame

def mergeAt (incoming : Frame) (arrival : Arrival) (state : Frame × Draft) (register : Nat) :
    Except Fault (Frame × Draft) := do
  let (f, d) := state
  let here := (f.registers.getD register .unknown).settled d
  let there := (incoming.registers.getD register .unknown).settled d
  let (met, d) ← within (.register register) (here.meet there arrival d)
  return (⟨f.registers.setIfInBounds register met⟩, d)

def merge (f incoming : Frame) (arrival : Arrival) (d : Draft) : Except Fault (Frame × Draft) :=
  if incoming.size ≠ f.size then refuse (.frameSizes f.size incoming.size)
  else (List.range f.size).foldlM (mergeAt incoming arrival) (f, d)

end Frame

end Restack
