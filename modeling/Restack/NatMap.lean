namespace Restack

abbrev NatMap (α : Type) := List (Nat × α)

namespace NatMap

variable {α : Type}

def get? (m : NatMap α) (key : Nat) : Option α := List.lookup key m

def contains (m : NatMap α) (key : Nat) : Bool := (m.get? key).isSome

def insert (key : Nat) (value : α) : NatMap α → NatMap α
  | [] => [(key, value)]
  | (k, v) :: rest =>
    if key < k then (key, value) :: (k, v) :: rest
    else if key = k then (key, value) :: rest
    else (k, v) :: insert key value rest

def erase (key : Nat) (m : NatMap α) : NatMap α := m.filter fun pair => pair.1 ≠ key

def adjust (key : Nat) (f : α → α) (m : NatMap α) : NatMap α :=
  m.map fun pair => if pair.1 = key then (pair.1, f pair.2) else pair

end NatMap

end Restack
