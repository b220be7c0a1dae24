import Restack.Stack.Retype

namespace Restack

structure Cell where
  root : Nat
  wide : Bool
  sites : List Nat := []
  resolved : Option Descriptor := none
deriving DecidableEq, Repr

-- A body under construction: its events, and the groups of placeholders among them. Groups that
-- were joined have one root and are resolved as one, at most once.
structure Draft where
  cells : Array Cell := #[]
  events : Array Event := #[]

namespace Draft

def cell (d : Draft) (i : Nat) : Cell := d.cells.getD i { root := i, wide := false }

def root (d : Draft) (g : Group) : Nat := (d.cell g.id).root

def newGroup (d : Draft) (wide : Bool) : Group × Draft :=
  let id := d.cells.size
  (⟨id⟩, { d with cells := d.cells.push { root := id, wide } })

def addSite (d : Draft) (g : Group) (site : Nat) : Draft :=
  { d with cells := d.cells.modify (d.root g) fun cell => { cell with sites := cell.sites ++ [site] } }

def resolution? (d : Draft) (g : Group) : Option Descriptor := (d.cell (d.root g)).resolved

def same (d : Draft) (a b : Group) : Bool := d.root a = d.root b

-- One group of two. It has the root of the first, and the sites of the second after its own.
def union (d : Draft) (a b : Group) : Group × Draft :=
  let kept := d.root a
  let gone := d.root b
  if kept = gone then (⟨kept⟩, d)
  else
    let moved := (d.cell gone).sites
    let cells := d.cells.map fun cell => if cell.root = gone then { cell with root := kept } else cell
    let cells := cells.modify gone fun cell => { cell with sites := [] }
    let cells := cells.modify kept fun cell => { cell with sites := cell.sites ++ moved }
    (⟨kept⟩, { d with cells })

def retypeSite (type : Descriptor) (d : Draft) (site : Nat) : Except Fault Draft :=
  match d.events[site]? with
  | some (.insn i) => do
    let i ← i.retype type
    return { d with events := d.events.setIfInBounds site (.insn i) }
  | _ => refuse (.siteNotInstruction site)

def resolve (d : Draft) (g : Group) (type : Descriptor) : Except Fault Draft :=
  let root := d.root g
  let cell := d.cell root
  if cell.resolved.isSome then .ok d
  else
    let cells := d.cells.modify root fun cell => { cell with sites := [], resolved := some type }
    cell.sites.foldlM (retypeSite type) { d with cells }

def defaultType (wide : Bool) : Descriptor := if wide then .long else .int

def resolveDefault (d : Draft) (id : Nat) : Except Fault Draft :=
  let cell := d.cell id
  if cell.root ≠ id || cell.resolved.isSome then .ok d else d.resolve ⟨id⟩ (defaultType cell.wide)

def resolveDefaults (d : Draft) : Except Fault Draft := (List.range d.cells.size).foldlM resolveDefault d

def push (d : Draft) (event : Event) : Draft := { d with events := d.events.push event }

def pushSite (d : Draft) (g : Group) (i : Insn) : Draft := (d.addSite g d.events.size).push (.insn i)

end Draft

end Restack
