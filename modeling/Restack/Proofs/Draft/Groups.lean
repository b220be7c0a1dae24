import Mathlib
import Restack.Frame.Draft
import Restack.Proofs.Outcome

namespace Restack.Draft

-- Groups as a partition. Every cell names its root, so what an operation does
-- to the partition is an equation between roots, and what it does to the types
-- is an equation between resolutions. No later proof looks into the cells.

variable {d e : Draft} {a b g h : Group} {wide : Bool} {site : Nat} {event : Event} {type : Descriptor} {i : Nat} {sites : List Nat}

def Has (d : Draft) (g : Group) : Prop := g.id < d.cells.size

structure Rooted (d : Draft) : Prop where
  bound : ∀ i, i < d.cells.size → (d.cell i).root < d.cells.size
  fixed : ∀ i, i < d.cells.size → (d.cell (d.cell i).root).root = (d.cell i).root

theorem rooted_empty : Rooted {} := by
  constructor <;> intro i small <;> simp at small

theorem Rooted.root_bound (rooted : d.Rooted) (has : d.Has g) : d.root g < d.cells.size := rooted.bound _ has

theorem Rooted.has_root (rooted : d.Rooted) (has : d.Has g) : d.Has ⟨d.root g⟩ := rooted.bound _ has

theorem Rooted.root_root (rooted : d.Rooted) (has : d.Has g) : d.root ⟨d.root g⟩ = d.root g := rooted.fixed _ has

theorem resolution_of_root (same : d.root a = d.root b) : d.resolution? a = d.resolution? b := by
  simp only [resolution?,same]

@[simp] theorem newGroup_id (d : Draft) (wide : Bool) : (d.newGroup wide).1 = ⟨d.cells.size⟩ := rfl

@[simp] theorem newGroup_events (d : Draft) (wide : Bool) : (d.newGroup wide).2.events = d.events := rfl

@[simp] theorem newGroup_size (d : Draft) (wide : Bool) : (d.newGroup wide).2.cells.size = d.cells.size + 1 := by
  simp [newGroup]

theorem newGroup_cell (d : Draft) (wide : Bool) (i : Nat) :
    (d.newGroup wide).2.cell i = if i = d.cells.size then { root := i, wide } else d.cell i := by
  by_cases last : i = d.cells.size
  · simp [newGroup,cell,last]
  · simp [newGroup,cell,last,Array.getElem?_push]

theorem newGroup_has (has : (d.newGroup wide).2.Has g) : d.Has g ∨ g = (d.newGroup wide).1 := by
  obtain ⟨id⟩ := g
  simp only [Has,newGroup_size,newGroup_id,Group.mk.injEq] at has ⊢
  omega

theorem has_newGroup (has : d.Has g) : (d.newGroup wide).2.Has g := by
  simp only [Has,newGroup_size] at has ⊢
  omega

theorem has_fresh (d : Draft) (wide : Bool) : (d.newGroup wide).2.Has (d.newGroup wide).1 := by
  simp [Has]

theorem newGroup_root (has : d.Has g) : (d.newGroup wide).2.root g = d.root g := by
  have old : g.id ≠ d.cells.size := Nat.ne_of_lt has
  simp only [root,newGroup_cell,old,if_false]

theorem newGroup_resolution (rooted : d.Rooted) (has : d.Has g) :
    (d.newGroup wide).2.resolution? g = d.resolution? g := by
  have old : d.root g ≠ d.cells.size := Nat.ne_of_lt (rooted.root_bound has)
  simp only [resolution?,newGroup_root has,newGroup_cell,old,if_false]

theorem newGroup_open (d : Draft) (wide : Bool) : (d.newGroup wide).2.resolution? (d.newGroup wide).1 = none := by
  simp [resolution?,root,newGroup_cell]

theorem newGroup_rooted (rooted : d.Rooted) : (d.newGroup wide).2.Rooted := by
  constructor
  · intro i small
    rw [newGroup_size] at small ⊢
    rw [newGroup_cell]
    split
    · omega
    · have bound := rooted.bound i (by omega)
      omega
  · intro i small
    rw [newGroup_size] at small
    rw [newGroup_cell d wide i]
    split
    · rename_i last
      simp [newGroup_cell,last]
    · have inside : i < d.cells.size := by omega
      have bound := rooted.bound i inside
      rw [newGroup_cell,if_neg (Nat.ne_of_lt bound)]
      exact rooted.fixed i inside

theorem cell_modify (d : Draft) (j i : Nat) (f : Cell → Cell) :
    ({ d with cells := d.cells.modify j f } : Draft).cell i =
      if i = j ∧ i < d.cells.size then f (d.cell i) else d.cell i := by
  simp only [cell,Array.getD_eq_getD_getElem?,Array.getElem?_modify]
  by_cases here : j = i
  · subst here
    by_cases inside : j < d.cells.size
    · simp [inside]
    · simp [inside]
  · simp [here,Ne.symm here]

-- A site. Only the list of sites of one root changes.

@[simp] theorem addSite_events (d : Draft) (g : Group) (site : Nat) : (d.addSite g site).events = d.events := rfl

@[simp] theorem addSite_size (d : Draft) (g : Group) (site : Nat) :
    (d.addSite g site).cells.size = d.cells.size := by
  simp [addSite]

theorem addSite_cell (d : Draft) (g : Group) (site i : Nat) :
    (d.addSite g site).cell i =
      if i = d.root g ∧ i < d.cells.size then { d.cell i with sites := (d.cell i).sites ++ [site] } else d.cell i :=
  cell_modify d (d.root g) i _

@[simp] theorem addSite_has (d : Draft) (g h : Group) (site : Nat) : (d.addSite g site).Has h ↔ d.Has h := by
  simp [Has]

@[simp] theorem addSite_cell_root (d : Draft) (g : Group) (site i : Nat) :
    ((d.addSite g site).cell i).root = (d.cell i).root := by
  rw [addSite_cell]
  split <;> rfl

@[simp] theorem addSite_cell_resolved (d : Draft) (g : Group) (site i : Nat) :
    ((d.addSite g site).cell i).resolved = (d.cell i).resolved := by
  rw [addSite_cell]
  split <;> rfl

@[simp] theorem addSite_root (d : Draft) (g h : Group) (site : Nat) : (d.addSite g site).root h = d.root h := by
  simp [root]

@[simp] theorem addSite_resolution (d : Draft) (g h : Group) (site : Nat) :
    (d.addSite g site).resolution? h = d.resolution? h := by
  simp [resolution?]

theorem addSite_rooted (rooted : d.Rooted) : (d.addSite g site).Rooted := by
  constructor
  · intro i small
    simpa using rooted.bound i (by simpa using small)
  · intro i small
    simpa using rooted.fixed i (by simpa using small)

@[simp] theorem push_cells (d : Draft) (event : Event) : (d.push event).cells = d.cells := rfl

@[simp] theorem push_events (d : Draft) (event : Event) : (d.push event).events = d.events.push event := rfl

@[simp] theorem push_has (d : Draft) (event : Event) (g : Group) : (d.push event).Has g ↔ d.Has g := .rfl

@[simp] theorem push_cell (d : Draft) (event : Event) (i : Nat) : (d.push event).cell i = d.cell i := rfl

@[simp] theorem push_root (d : Draft) (event : Event) (g : Group) : (d.push event).root g = d.root g := rfl

@[simp] theorem push_resolution (d : Draft) (event : Event) (g : Group) :
    (d.push event).resolution? g = d.resolution? g := rfl

theorem push_rooted (rooted : d.Rooted) : (d.push event).Rooted := ⟨rooted.bound,rooted.fixed⟩

-- Two groups become one, whose root is the root of the first.

theorem union_of_same (same : d.root a = d.root b) : d.union a b = (⟨d.root a⟩,d) := by
  simp [union,same]

@[simp] theorem union_id (d : Draft) (a b : Group) : (d.union a b).1 = ⟨d.root a⟩ := by
  unfold union
  dsimp only
  split <;> rfl

@[simp] theorem union_events (d : Draft) (a b : Group) : (d.union a b).2.events = d.events := by
  unfold union
  dsimp only
  split <;> rfl

@[simp] theorem union_size (d : Draft) (a b : Group) : (d.union a b).2.cells.size = d.cells.size := by
  unfold union
  dsimp only
  split <;> simp

@[simp] theorem union_has (d : Draft) (a b g : Group) : (d.union a b).2.Has g ↔ d.Has g := by
  simp [Has]

theorem union_cell (apart : d.root a ≠ d.root b) (inside : i < d.cells.size) :
    (d.union a b).2.cell i =
      { root := if (d.cell i).root = d.root b then d.root a else (d.cell i).root
        wide := (d.cell i).wide
        sites :=
          if i = d.root a then (d.cell i).sites ++ (d.cell (d.root b)).sites
          else if i = d.root b then [] else (d.cell i).sites
        resolved := (d.cell i).resolved } := by
  have relabelled : ∀ i, i < d.cells.size →
      ({ d with cells := d.cells.map fun cell => if cell.root = d.root b then { cell with root := d.root a } else cell }
        : Draft).cell i = { d.cell i with root := if (d.cell i).root = d.root b then d.root a else (d.cell i).root } := by
    intro i inside
    simp only [cell,Array.getD_eq_getD_getElem?,Array.getElem?_map,Array.getElem?_eq_getElem inside,Option.map_some,
      Option.getD_some]
    split <;> rfl
  simp only [union,apart,if_false]
  rw [cell_modify (d := { d with cells := _ }),cell_modify (d := { d with cells := _ }),relabelled i inside]
  by_cases kept : i = d.root a
  · simp [kept,apart,kept ▸ inside]
  · by_cases gone : i = d.root b
    · simp [gone,Ne.symm apart,gone ▸ inside]
    · simp [kept,gone]

theorem union_root (has : d.Has g) :
    (d.union a b).2.root g = if d.root g = d.root b then d.root a else d.root g := by
  by_cases same : d.root a = d.root b
  · rw [union_of_same same]
    split
    · rename_i equal
      exact equal.trans same.symm
    · rfl
  · unfold root at same ⊢
    rw [union_cell same has]
    rfl

theorem union_same_iff (left : d.Has g) (right : d.Has h) :
    (d.union a b).2.root g = (d.union a b).2.root h ↔ d.root g = d.root h ∨
      (d.root g = d.root a ∨ d.root g = d.root b) ∧ (d.root h = d.root a ∨ d.root h = d.root b) := by
  rw [union_root left,union_root right]
  split <;> split <;> omega

theorem union_resolution (rooted : d.Rooted) (left : d.Has a)
    (openLeft : d.resolution? a = none) (openRight : d.resolution? b = none) (has : d.Has g) :
    (d.union a b).2.resolution? g = d.resolution? g := by
  by_cases same : d.root a = d.root b
  · rw [union_of_same same]
  · have moved := union_root (a := a) (b := b) has
    by_cases gone : d.root g = d.root b
    · rw [if_pos gone] at moved
      rw [resolution_of_root gone,openRight]
      unfold resolution?
      rw [moved,union_cell same (rooted.root_bound left)]
      exact openLeft
    · rw [if_neg gone] at moved
      unfold resolution?
      rw [moved,union_cell same (rooted.root_bound has)]

theorem union_rooted (rooted : d.Rooted) (left : d.Has a) : (d.union a b).2.Rooted := by
  by_cases same : d.root a = d.root b
  · rwa [union_of_same same]
  · have kept : ∀ i, i < d.cells.size → ((d.union a b).2.cell i).root =
        if (d.cell i).root = d.root b then d.root a else (d.cell i).root := by
      intro i inside
      rw [union_cell same inside]
    constructor
    · intro i small
      rw [union_size] at small ⊢
      rw [kept i small]
      split
      · exact rooted.root_bound left
      · exact rooted.bound i small
    · intro i small
      rw [union_size] at small
      rw [kept i small]
      split
      · rw [kept _ (rooted.root_bound left),if_neg]
        · exact rooted.root_root left
        · rw [show (d.cell (d.root a)).root = d.root a from rooted.root_root left]
          exact same
      · rename_i other
        rw [kept _ (rooted.bound i small),rooted.fixed i small,if_neg other]

-- A group gets its type. The cells change at once, the events site by site.

theorem retypeSite_cells (done : retypeSite type d site = .ok e) : e.cells = d.cells := by
  unfold retypeSite at done
  split at done
  · simp only [bind_eq_ok,pure_eq_ok] at done
    obtain ⟨i,-,rfl⟩ := done
    rfl
  · simp at done

theorem retypeSite_events (done : retypeSite type d site = .ok e) :
    ∃ i j, d.events[site]? = some (.insn i) ∧ i.retype type = .ok j ∧ e.events = d.events.setIfInBounds site (.insn j) := by
  unfold retypeSite at done
  split at done
  · rename_i i found
    simp only [bind_eq_ok,pure_eq_ok] at done
    obtain ⟨j,retyped,rfl⟩ := done
    exact ⟨i,j,found,retyped,rfl⟩
  · simp at done

theorem retypeSites_cells (done : sites.foldlM (retypeSite type) d = .ok e) : e.cells = d.cells :=
  foldlM_keeps (P := fun m => m.cells = d.cells)
    (fun _ _ _ _ same step => (retypeSite_cells step).trans same) rfl done

theorem retypeSites_size (done : sites.foldlM (retypeSite type) d = .ok e) : e.events.size = d.events.size := by
  refine foldlM_keeps (P := fun m => m.events.size = d.events.size) ?_ rfl done
  intro m site n _ same step
  obtain ⟨i,j,-,-,written⟩ := retypeSite_events step
  simpa [written] using same

theorem retypeSites_other (done : sites.foldlM (retypeSite type) d = .ok e) (other : site ∉ sites) :
    e.events[site]? = d.events[site]? := by
  refine foldlM_keeps (P := fun m => m.events[site]? = d.events[site]?) ?_ rfl done
  intro m next n member same step
  obtain ⟨i,j,-,-,written⟩ := retypeSite_events step
  have differs : next ≠ site := fun equal => other (equal ▸ member)
  rw [written,Array.getElem?_setIfInBounds,if_neg differs,same]

theorem retypeSites_site (done : sites.foldlM (retypeSite type) d = .ok e) (distinct : sites.Nodup)
    (member : site ∈ sites) :
    ∃ i j, d.events[site]? = some (.insn i) ∧ i.retype type = .ok j ∧ e.events[site]? = some (.insn j) := by
  induction sites generalizing d with
  | nil => cases member
  | cons first rest ih =>
    rw [List.foldlM_cons,bind_eq_ok] at done
    obtain ⟨m,step,done⟩ := done
    obtain ⟨i,j,found,retyped,written⟩ := retypeSite_events step
    rw [List.nodup_cons] at distinct
    rcases List.mem_cons.mp member with equal | later
    · subst equal
      refine ⟨i,j,found,retyped,?_⟩
      have inside : site < d.events.size := (Array.getElem?_eq_some_iff.mp found).1
      rw [retypeSites_other done distinct.1,written,Array.getElem?_setIfInBounds,if_pos rfl,if_pos inside]
    · obtain ⟨i',j',found',retyped',final⟩ := ih done distinct.2 later
      have differs : first ≠ site := fun equal => distinct.1 (equal ▸ later)
      rw [written,Array.getElem?_setIfInBounds,if_neg differs] at found'
      exact ⟨i',j',found',retyped',final⟩

theorem resolve_of_resolved (resolved : (d.resolution? g).isSome) : d.resolve g type = .ok d := by
  simp only [resolution?] at resolved
  simp [resolve,resolved]

theorem resolve_open_or_same (done : d.resolve g type = .ok e) : d.resolution? g = none ∨ e = d := by
  cases known : d.resolution? g with
  | none => exact .inl rfl
  | some old =>
    rw [resolve_of_resolved (by simp [known])] at done
    cases done
    exact .inr rfl

theorem resolve_sites (isOpen : d.resolution? g = none) (done : d.resolve g type = .ok e) :
    (d.cell (d.root g)).sites.foldlM (retypeSite type)
      { d with cells := d.cells.modify (d.root g) fun cell => { cell with sites := [], resolved := some type } } = .ok e := by
  simp only [resolution?] at isOpen
  simpa [resolve,isOpen] using done

theorem resolve_size (isOpen : d.resolution? g = none) (done : d.resolve g type = .ok e) :
    e.cells.size = d.cells.size := by
  simp [retypeSites_cells (resolve_sites isOpen done)]

theorem resolve_has (isOpen : d.resolution? g = none) (done : d.resolve g type = .ok e) : e.Has h ↔ d.Has h := by
  simp [Has,resolve_size isOpen done]

theorem resolve_events_size (isOpen : d.resolution? g = none) (done : d.resolve g type = .ok e) :
    e.events.size = d.events.size := (retypeSites_size (resolve_sites isOpen done) :)

theorem resolve_cell (isOpen : d.resolution? g = none) (done : d.resolve g type = .ok e) (i : Nat) :
    e.cell i = if i = d.root g ∧ i < d.cells.size then { d.cell i with sites := [], resolved := some type }
      else d.cell i := by
  have cells := retypeSites_cells (resolve_sites isOpen done)
  rw [← cell_modify d (d.root g) i fun cell => { cell with sites := [], resolved := some type }]
  simp only [cell,cells]

theorem resolve_root (isOpen : d.resolution? g = none) (done : d.resolve g type = .ok e) (h : Group) :
    e.root h = d.root h := by
  unfold root
  rw [resolve_cell isOpen done]
  split <;> rfl

theorem resolve_resolution (rooted : d.Rooted) (isOpen : d.resolution? g = none) (done : d.resolve g type = .ok e)
    (has : d.Has h) : e.resolution? h = if d.root h = d.root g then some type else d.resolution? h := by
  unfold resolution?
  rw [resolve_root isOpen done,resolve_cell isOpen done]
  by_cases same : d.root h = d.root g
  · rw [if_pos ⟨same,rooted.root_bound has⟩,if_pos same]
  · rw [if_neg (fun both => same both.1),if_neg same]

theorem resolve_still_open (rooted : d.Rooted) (isOpen : d.resolution? g = none) (done : d.resolve g type = .ok e)
    (has : d.Has h) (free : e.resolution? h = none) : d.root h ≠ d.root g ∧ d.resolution? h = none := by
  rw [resolve_resolution rooted isOpen done has] at free
  split at free
  · cases free
  · exact ⟨‹_›,free⟩

theorem resolve_rooted (rooted : d.Rooted) (isOpen : d.resolution? g = none) (done : d.resolve g type = .ok e) :
    e.Rooted := by
  have kept : ∀ i, (e.cell i).root = (d.cell i).root := by
    intro i
    rw [resolve_cell isOpen done]
    split <;> rfl
  constructor
  · intro i small
    rw [resolve_size isOpen done] at small ⊢
    rw [kept]
    exact rooted.bound i small
  · intro i small
    rw [resolve_size isOpen done] at small
    rw [kept,kept]
    exact rooted.fixed i small

end Restack.Draft
