import Mathlib
import Restack.Proofs.Draft.Sites
import Restack.Proofs.Draft.Widths

namespace Restack.Draft

-- Groups by their history. All that was called on a draft is written down, and what the groups are
-- is said of the calls alone: which groups were joined, and which sites were recorded for them.

instance (d : Draft) (g : Group) : Decidable (d.Has g) := inferInstanceAs (Decidable (_ < _))

inductive Call where
  | group (wide : Bool)
  | addSite (g : Group) (site : Nat)
  | union (a b : Group)
  | same (a b : Group)
  | resolution (g : Group)
  | resolve (g : Group) (type : Descriptor)
  -- The code grows.
  | push (event : Event)

def Call.run (d : Draft) : Call → Except Fault Draft
  | .group wide => .ok (d.newGroup wide).2
  | .addSite g site => .ok (d.addSite g site)
  | .union a b => .ok (d.union a b).2
  | .same _ _ | .resolution _ => .ok d
  | .resolve g type => d.resolve g type
  | .push event => .ok (d.push event)

def Call.width? : Call → Option Bool
  | .group wide => some wide
  | _ => none

def Call.event? : Call → Option Event
  | .push event => some event
  | _ => none

def widths (calls : List Call) : List Bool := calls.filterMap Call.width?

def written (events : Array Event) (calls : List Call) : List Event := events.toList ++ calls.filterMap Call.event?

def Connected (calls : List Call) : Group → Group → Prop := Relation.EqvGen fun a b => .union a b ∈ calls

-- A site of a group is one that was recorded for any group it is connected with.
def Recorded (calls : List Call) (g : Group) (site : Nat) : Prop := ∃ h, Connected calls g h ∧ .addSite h site ∈ calls

-- What callers keep to. Groups that have their type get no sites and are not joined, nor are groups
-- of different width, and no event is recorded twice.
def Call.Allowed (calls : List Call) (d : Draft) : Call → Prop
  | .group _ | .push _ => True
  | .addSite g site => d.Has g ∧ d.resolution? g = none ∧ ∀ h, .addSite h site ∉ calls
  | .union a b => d.Has a ∧ d.Has b ∧ d.resolution? a = none ∧ d.resolution? b = none ∧
      (widths calls)[a.id]? = (widths calls)[b.id]?
  | .same a b => d.Has a ∧ d.Has b
  | .resolution g | .resolve g _ => d.Has g

inductive Leads (calls : List Call) (d : Draft) : List Call → Draft → Prop where
  | refl : Leads calls d calls d
  | call {later : List Call} {m e : Draft} {c : Call} : Leads calls d later m → c.Allowed later m → c.run m = .ok e →
      Leads calls d (later ++ [c]) e

def History (events : Array Event) (calls : List Call) (d : Draft) : Prop := Leads [] { events } calls d

variable {events : Array Event} {calls later : List Call} {c : Call} {d e m : Draft} {a b g h : Group} {type : Descriptor}
  {site k : Nat} {event : Event} {wide : Bool}

theorem Leads.trans (first : Leads calls d later m) (second : Leads later m last e) : Leads calls d last e := by
  induction second with
  | refl => exact first
  | call _ allowed done ih => exact .call ih allowed done

theorem History.snoc (ran : History events (calls ++ [c]) e) : ∃ d, History events calls d ∧ c.Allowed calls d ∧ c.run d = .ok e := by
  unfold History at ran
  generalize whole : calls ++ [c] = all at ran
  cases ran with
  | refl => simp at whole
  | call before allowed done =>
    obtain ⟨rfl,same⟩ := List.append_inj' whole rfl
    cases same
    exact ⟨_,before,allowed,done⟩

theorem History.start (ran : History events [] d) : d = { events } := by
  unfold History at ran
  generalize none : [] = all at ran
  cases ran with
  | refl => rfl
  | call => simp at none

theorem mem_snoc_other {x : Call} (other : x ≠ c) : x ∈ calls ++ [c] ↔ x ∈ calls := by
  simp [other]

theorem Connected.refl (calls : List Call) (g : Group) : Connected calls g g := Relation.EqvGen.refl g

theorem Connected.snoc (connected : Connected calls a b) (c : Call) : Connected (calls ++ [c]) a b :=
  Relation.EqvGen.mono (fun _ _ member => List.mem_append_left _ member) a b connected

theorem Connected.value {α : Sort _} (v : Group → α) (agrees : ∀ a b, .union a b ∈ calls → v a = v b)
    (connected : Connected calls a b) : v a = v b := by
  induction connected with
  | rel a b member => exact agrees a b member
  | refl a => rfl
  | symm a b _ ih => exact ih.symm
  | trans a b c _ _ first second => exact first.trans second

-- What a call does to groups that are there: only joining moves roots, and a type that was given stays.

theorem Call.run_has (done : c.run d = .ok e) (has : d.Has g) : e.Has g := by
  cases c with
  | group wide =>
    cases done
    exact (retains_newGroup d wide).has g has
  | addSite h site =>
    cases done
    exact (addSite_has d h g site).mpr has
  | union a b =>
    cases done
    exact (retains_union d a b).has g has
  | same a b | resolution h =>
    cases done
    exact has
  | resolve h type => exact (retains_resolve done).has g has
  | push event =>
    cases done
    exact has

theorem Call.run_fresh (done : c.run d = .ok e) (has : e.Has g) :
    d.Has g ∨ g.id = d.cells.size ∧ e.root g = d.cells.size := by
  cases c with
  | group wide =>
    cases done
    rcases newGroup_has has with old | rfl
    · exact .inl old
    · exact .inr ⟨rfl,root_fresh d wide⟩
  | addSite h site =>
    cases done
    exact .inl ((addSite_has d h g site).mp has)
  | union a b =>
    cases done
    exact .inl ((union_has d a b g).mp has)
  | same a b | resolution h | push event =>
    cases done
    exact .inl has
  | resolve h type =>
    rcases resolve_open_or_same done with isOpen | rfl
    · exact .inl ((resolve_has isOpen done).mp has)
    · exact .inl has

theorem Call.run_root (plain : ∀ a b, c ≠ .union a b) (done : c.run d = .ok e) (has : d.Has g) : e.root g = d.root g := by
  cases c with
  | group wide =>
    cases done
    exact newGroup_root has
  | addSite h site =>
    cases done
    exact addSite_root d h g site
  | union a b => exact absurd rfl (plain a b)
  | same a b | resolution h =>
    cases done
    rfl
  | resolve h type =>
    rcases resolve_open_or_same done with isOpen | rfl
    · exact resolve_root isOpen done g
    · rfl
  | push event =>
    cases done
    rfl

theorem Call.run_resolution (rooted : d.Rooted) (allowed : c.Allowed calls d) (plain : ∀ h type, c ≠ .resolve h type)
    (done : c.run d = .ok e) (has : d.Has g) : e.resolution? g = d.resolution? g := by
  cases c with
  | group wide =>
    cases done
    exact newGroup_resolution rooted has
  | addSite h site =>
    cases done
    exact addSite_resolution d h g site
  | union a b =>
    cases done
    obtain ⟨left,-,openLeft,openRight,-⟩ := allowed
    exact union_resolution rooted left openLeft openRight has
  | same a b | resolution h =>
    cases done
    rfl
  | resolve h type => exact absurd rfl (plain h type)
  | push event =>
    cases done
    rfl

theorem Call.run_rooted (rooted : d.Rooted) (allowed : c.Allowed calls d) (done : c.run d = .ok e) : e.Rooted := by
  cases c with
  | group wide =>
    cases done
    exact newGroup_rooted rooted
  | addSite h site =>
    cases done
    exact addSite_rooted rooted
  | union a b =>
    cases done
    exact union_rooted rooted allowed.1
  | same a b | resolution h =>
    cases done
    exact rooted
  | resolve h type =>
    rcases resolve_open_or_same done with isOpen | rfl
    · exact resolve_rooted rooted isOpen done
    · exact rooted
  | push event =>
    cases done
    exact push_rooted rooted

theorem Call.run_type (rooted : d.Rooted) (allowed : c.Allowed calls d) (done : c.run d = .ok e) (has : d.Has g)
    (known : d.resolution? g = some type) : e.resolution? g = some type := by
  cases c with
  | resolve h other =>
    rcases resolve_open_or_same done with isOpen | rfl
    · rw [resolve_resolution rooted isOpen done has,if_neg]
      · exact known
      · intro same
        rw [resolution_of_root same,isOpen] at known
        cases known
    · exact known
  | _ => exact (Call.run_resolution rooted allowed (by simp) done has).trans known

-- The partition. Two groups have one root just when calls have joined them.
structure Partitioned (calls : List Call) (d : Draft) : Prop where
  rooted : d.Rooted
  united : ∀ a b, .union a b ∈ calls → d.Has a ∧ d.Has b ∧ d.root a = d.root b
  known : ∀ g site, .addSite g site ∈ calls → d.Has g
  same : ∀ a b, d.Has a → d.Has b → d.root a = d.root b → Connected calls a b

theorem Partitioned.root_of_connected (partitioned : Partitioned calls d) (connected : Connected calls a b) :
    d.root a = d.root b := connected.value d.root fun x y member => (partitioned.united x y member).2.2

theorem Partitioned.has_of_connected (partitioned : Partitioned calls d) (connected : Connected calls a b) :
    d.Has a ↔ d.Has b := by
  refine iff_of_eq (connected.value d.Has fun x y member => ?_)
  obtain ⟨left,right,-⟩ := partitioned.united x y member
  exact propext (iff_of_true left right)

theorem Partitioned.connected_iff (partitioned : Partitioned calls d) (left : d.Has a) (right : d.Has b) :
    Connected calls a b ↔ d.root a = d.root b :=
  ⟨partitioned.root_of_connected,partitioned.same a b left right⟩

theorem partitioned_start (events : Array Event) : Partitioned [] { events } := by
  refine ⟨⟨?_,?_⟩,?_,?_,?_⟩
  · intro i small
    simp at small
  · intro i small
    simp at small
  · intro a b member
    cases member
  · intro g site member
    cases member
  · intro a b has
    simp [Has] at has

theorem Partitioned.union (before : Partitioned calls d) (left : d.Has a) (right : d.Has b) :
    Partitioned (calls ++ [.union a b]) (d.union a b).2 := by
  have roots : ∀ g, d.Has g → (d.union a b).2.root g = if d.root g = d.root b then d.root a else d.root g :=
    fun g has => union_root has
  have old : ∀ g, (d.union a b).2.Has g → d.Has g := fun g => (union_has d a b g).mp
  have new : ∀ g, d.Has g → (d.union a b).2.Has g := (retains_union d a b).has
  refine ⟨union_rooted before.rooted left,?_,?_,?_⟩
  · intro x y member
    rcases List.mem_append.mp member with earlier | here
    · obtain ⟨hasX,hasY,same⟩ := before.united x y earlier
      exact ⟨new x hasX,new y hasY,by rw [roots x hasX,roots y hasY,same]⟩
    · cases List.mem_singleton.mp here
      refine ⟨new a left,new b right,?_⟩
      rw [roots a left,roots b right,if_pos rfl]
      split <;> rfl
  · intro g site member
    exact new g (before.known g site (by simpa using member))
  · intro x y hasX hasY same
    have joined : Connected (calls ++ [.union a b]) a b := .rel a b (List.mem_append_right _ (List.mem_singleton_self _))
    -- A group whose root moved is connected with the first of the two.
    have moved : ∀ g, d.Has g → d.root g = d.root b → Connected (calls ++ [.union a b]) g a := fun g has atB =>
      .trans _ _ _ ((before.same g b has right atB).snoc _) (.symm _ _ joined)
    have stayed : ∀ g h, d.Has g → d.Has h → d.root g = d.root h → Connected (calls ++ [.union a b]) g h :=
      fun g h hasG hasH equal => (before.same g h hasG hasH equal).snoc _
    rw [roots x (old x hasX),roots y (old y hasY)] at same
    split at same
    · rename_i atX
      split at same
      · rename_i atY
        exact .trans _ _ _ (moved x (old x hasX) atX) (.symm _ _ (moved y (old y hasY) atY))
      · exact .trans _ _ _ (moved x (old x hasX) atX) (stayed a y left (old y hasY) same)
    · split at same
      · rename_i atY
        exact .trans _ _ _ (stayed x a (old x hasX) left same) (.symm _ _ (moved y (old y hasY) atY))
      · exact stayed x y (old x hasX) (old y hasY) same

theorem Partitioned.call (before : Partitioned calls d) (allowed : c.Allowed calls d) (done : c.run d = .ok e) :
    Partitioned (calls ++ [c]) e := by
  by_cases joins : ∃ a b, c = .union a b
  · obtain ⟨a,b,rfl⟩ := joins
    cases done
    exact before.union allowed.1 allowed.2.1
  · have plain : ∀ a b, c ≠ .union a b := fun a b same => joins ⟨a,b,same⟩
    have roots : ∀ g, d.Has g → e.root g = d.root g := fun g => Call.run_root plain done
    have new : ∀ g, d.Has g → e.Has g := fun g => Call.run_has done
    refine ⟨Call.run_rooted before.rooted allowed done,?_,?_,?_⟩
    · intro a b member
      obtain ⟨hasA,hasB,same⟩ := before.united a b ((mem_snoc_other (plain a b).symm).mp member)
      exact ⟨new a hasA,new b hasB,by rw [roots a hasA,roots b hasB,same]⟩
    · intro g site member
      rcases List.mem_append.mp member with earlier | here
      · exact new g (before.known g site earlier)
      · cases List.mem_singleton.mp here
        exact new g allowed.1
    · intro a b hasA hasB same
      -- A group that was made just now is its own root, and no other group has that root.
      rcases Call.run_fresh done hasA with oldA | ⟨idA,rootA⟩
      · rcases Call.run_fresh done hasB with oldB | ⟨-,rootB⟩
        · rw [roots a oldA,roots b oldB] at same
          exact (before.same a b oldA oldB same).snoc c
        · rw [roots a oldA,rootB] at same
          exact absurd same (Nat.ne_of_lt (before.rooted.root_bound oldA))
      · rcases Call.run_fresh done hasB with oldB | ⟨idB,-⟩
        · rw [rootA,roots b oldB] at same
          exact absurd same.symm (Nat.ne_of_lt (before.rooted.root_bound oldB))
        · cases a
          cases b
          cases idA
          cases idB
          exact .refl _ _

theorem History.partitioned (ran : History events calls d) : Partitioned calls d := by
  unfold History at ran
  induction ran with
  | refl => exact partitioned_start events
  | call _ allowed done ih => exact ih.call allowed done

end Restack.Draft
