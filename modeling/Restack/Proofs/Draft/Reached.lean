import Mathlib
import Restack.Proofs.Draft.Settles

namespace Restack.Draft

-- Drafts as any calls leave them, in any order and on any groups that are there. Nothing is asked of the callers:
-- a group that has its type may be joined with others and get sites, and a site may be recorded twice or for no event.

variable {d : Draft} {g : Group} {type : Descriptor}

def given (d : Draft) (g : Group) (type : Descriptor) : Draft :=
  { d with cells := d.cells.modify (d.root g) fun cell => { cell with sites := [], resolved := some type } }

inductive Reached : Draft → Prop where
  | start : Reached {}
  | group {d : Draft} (wide : Bool) : Reached d → Reached (d.newGroup wide).2
  | addSite {d : Draft} {g : Group} (site : Nat) : Reached d → d.Has g → Reached (d.addSite g site)
  | union {d : Draft} {a b : Group} : Reached d → d.Has a → d.Has b → Reached (d.union a b).2
  | resolve {d e : Draft} {g : Group} {type : Descriptor} : Reached d → d.Has g → d.resolve g type = .ok e → Reached e
  -- An event that cannot take the type stops the call, when the group has its type already.
  | halted {d : Draft} {g : Group} {type : Descriptor} {fault : Fault} : Reached d → d.Has g →
      d.resolve g type = .error fault → Reached (d.given g type)
  | defaults {d e : Draft} : Reached d → d.resolveDefaults = .ok e → Reached e
  -- The events are not the groups' own: they may be any, and change between the calls.
  | events {d : Draft} (events : Array Event) : Reached d → Reached { d with events }

theorem given_cell_root (d : Draft) (g : Group) (type : Descriptor) (i : Nat) :
    ((d.given g type).cell i).root = (d.cell i).root := by
  unfold given
  rw [cell_modify]
  split <;> rfl

theorem given_rooted (rooted : d.Rooted) : (d.given g type).Rooted := by
  have size : (d.given g type).cells.size = d.cells.size := by simp [given]
  constructor
  · intro i small
    rw [size] at small ⊢
    rw [given_cell_root]
    exact rooted.bound i small
  · intro i small
    rw [size] at small
    rw [given_cell_root,given_cell_root]
    exact rooted.fixed i small

theorem Rooted.sound (rooted : d.Rooted) : d.Sound fun _ => True := ⟨rooted,fun _ _ _ _ => trivial⟩

theorem Reached.rooted (reached : d.Reached) : d.Rooted := by
  induction reached with
  | start => exact rooted_empty
  | group wide _ ih => exact newGroup_rooted ih
  | addSite site _ _ ih => exact addSite_rooted ih
  | union _ left _ ih => exact union_rooted ih left
  | resolve _ has done ih => exact ((settles_resolve has trivial done).sound ih.sound).toRooted
  | halted _ _ _ ih => exact given_rooted ih
  | defaults _ done ih =>
    obtain ⟨path,-⟩ := resolveDefaults_settles ih.sound (fun _ => trivial) done
    exact (path.sound ih.sound).toRooted
  | events _ _ ih => exact ⟨ih.bound,ih.fixed⟩

end Restack.Draft
