import Mathlib
import Restack.Proofs.Draft.Groups

namespace Restack.Draft

-- The events that wait for the type of a group. A group that has its type may
-- still be given sites; nothing happens to those any more.

variable {d e : Draft} {a b g h : Group} {wide : Bool} {site : Nat} {type : Descriptor} {R S : Group → Nat → Prop}

def waiting (d : Draft) (g : Group) : List Nat := (d.cell (d.root g)).sites

theorem waiting_newGroup (rooted : d.Rooted) (has : d.Has g) : (d.newGroup wide).2.waiting g = d.waiting g := by
  have old : d.root g ≠ d.cells.size := Nat.ne_of_lt (rooted.root_bound has)
  simp [waiting,newGroup_root has,newGroup_cell,old]

theorem root_fresh (d : Draft) (wide : Bool) : (d.newGroup wide).2.root (d.newGroup wide).1 = d.cells.size := by
  simp [root,newGroup_cell]

theorem waiting_fresh (d : Draft) (wide : Bool) : (d.newGroup wide).2.waiting (d.newGroup wide).1 = [] := by
  simp [waiting,root,newGroup_cell]

theorem waiting_addSite (rooted : d.Rooted) (has : d.Has h) :
    (d.addSite g site).waiting h = if d.root h = d.root g then d.waiting h ++ [site] else d.waiting h := by
  unfold waiting
  rw [addSite_root,addSite_cell]
  by_cases same : d.root h = d.root g
  · rw [if_pos ⟨same,rooted.root_bound has⟩,if_pos same]
  · rw [if_neg (fun both => same both.1),if_neg same]

theorem mem_waiting_addSite {k : Nat} (rooted : d.Rooted) (has : d.Has h) :
    k ∈ (d.addSite g site).waiting h ↔ k ∈ d.waiting h ∨ d.root h = d.root g ∧ k = site := by
  rw [waiting_addSite rooted has]
  split
  · rename_i same
    simp [same]
  · rename_i apart
    simp [apart]

theorem waiting_union (rooted : d.Rooted) (left : d.Has a) (apart : d.root a ≠ d.root b) (has : d.Has g) :
    (d.union a b).2.waiting g =
      if d.root g = d.root a ∨ d.root g = d.root b then d.waiting a ++ d.waiting b else d.waiting g := by
  unfold waiting
  rw [union_root has]
  by_cases gone : d.root g = d.root b
  · rw [if_pos gone,if_pos (.inr gone),union_cell apart (rooted.root_bound left)]
    simp
  · rw [if_neg gone,union_cell apart (rooted.root_bound has)]
    by_cases kept : d.root g = d.root a
    · simp [kept]
    · simp [kept,gone]

theorem waiting_resolve (isOpen : d.resolution? g = none) (done : d.resolve g type = .ok e)
    (other : d.root h ≠ d.root g) : e.waiting h = d.waiting h := by
  unfold waiting
  rw [resolve_root isOpen done,resolve_cell isOpen done,if_neg (fun both => other both.1)]

theorem resolve_waiting (isOpen : d.resolution? g = none) (done : d.resolve g type = .ok e)
    (distinct : (d.waiting g).Nodup) (member : site ∈ d.waiting g) :
    ∃ i j, d.events[site]? = some (.insn i) ∧ i.retype type = .ok j ∧ e.events[site]? = some (.insn j) :=
  (retypeSites_site (resolve_sites isOpen done) distinct member :)

theorem resolve_elsewhere (isOpen : d.resolution? g = none) (done : d.resolve g type = .ok e)
    (other : site ∉ d.waiting g) : e.events[site]? = d.events[site]? := (retypeSites_other (resolve_sites isOpen done) other :)

-- Sites by a record of who asked for them. A site is recorded for one group, and what waits for an open group is what was
-- recorded for any group joined with it, each site once.
structure Filed (d : Draft) (R : Group → Nat → Prop) : Prop where
  known : ∀ g site, R g site → d.Has g
  once : ∀ g h site, R g site → R h site → g = h
  waits : ∀ g, d.Has g → d.resolution? g = none → ∀ site, site ∈ d.waiting g ↔ ∃ h, d.root h = d.root g ∧ R h site
  distinct : ∀ g, d.Has g → d.resolution? g = none → (d.waiting g).Nodup

theorem Filed.congr (filed : d.Filed R) (same : ∀ g site, S g site ↔ R g site) : d.Filed S := by
  obtain rfl : S = R := funext fun g => funext fun site => propext (same g site)
  exact filed

theorem Filed.events (filed : d.Filed R) (events : Array Event) : ({ d with events } : Draft).Filed R :=
  ⟨filed.known,filed.once,filed.waits,filed.distinct⟩

theorem Filed.elsewhere (filed : d.Filed R) (has : d.Has g) (isOpen : d.resolution? g = none) (recorded : R h site)
    (apart : d.root h ≠ d.root g) : site ∉ d.waiting g := by
  intro member
  obtain ⟨k,equal,again⟩ := (filed.waits g has isOpen site).mp member
  rw [filed.once k h site again recorded] at equal
  exact apart equal

theorem Filed.newGroup (filed : d.Filed R) (rooted : d.Rooted) (wide : Bool) : (d.newGroup wide).2.Filed R := by
  refine ⟨fun g site recorded => has_newGroup (filed.known g site recorded),filed.once,?_,?_⟩
  · intro g has isOpen site
    rcases newGroup_has has with old | rfl
    · rw [newGroup_resolution rooted old] at isOpen
      rw [waiting_newGroup rooted old,filed.waits g old isOpen,newGroup_root old]
      refine exists_congr fun h => and_congr_left fun recorded => ?_
      rw [newGroup_root (filed.known h site recorded)]
    · rw [waiting_fresh,root_fresh]
      -- All that has sites was there before and has another root.
      refine iff_of_false List.not_mem_nil ?_
      rintro ⟨h,equal,recorded⟩
      have old := filed.known h site recorded
      rw [newGroup_root old] at equal
      exact absurd equal (Nat.ne_of_lt (rooted.root_bound old))
  · intro g has isOpen
    rcases newGroup_has has with old | rfl
    · rw [newGroup_resolution rooted old] at isOpen
      rw [waiting_newGroup rooted old]
      exact filed.distinct g old isOpen
    · rw [waiting_fresh]
      exact List.nodup_nil

theorem Filed.addSite (filed : d.Filed R) (rooted : d.Rooted) (has : d.Has g) (fresh : ∀ h, ¬ R h site) :
    (d.addSite g site).Filed fun h k => R h k ∨ h = g ∧ k = site := by
  refine ⟨?_,?_,?_,?_⟩
  · rintro h k (recorded | ⟨rfl,rfl⟩)
    · exact (addSite_has d g h site).mpr (filed.known h k recorded)
    · exact (addSite_has d h h k).mpr has
  · rintro x y k (left | ⟨rfl,rfl⟩) (right | ⟨rfl,same⟩)
    · exact filed.once x y k left right
    · exact absurd (same ▸ left) (fresh x)
    · exact absurd right (fresh y)
    · rfl
  · intro h there isOpen k
    rw [addSite_has] at there
    rw [addSite_resolution] at isOpen
    simp only [addSite_root]
    rw [mem_waiting_addSite rooted there,filed.waits h there isOpen]
    constructor
    · rintro (⟨x,equal,recorded⟩ | ⟨equal,rfl⟩)
      · exact ⟨x,equal,.inl recorded⟩
      · exact ⟨g,equal.symm,.inr ⟨rfl,rfl⟩⟩
    · rintro ⟨x,equal,recorded | ⟨rfl,rfl⟩⟩
      · exact .inl ⟨x,equal,recorded⟩
      · exact .inr ⟨equal.symm,rfl⟩
  · intro h there isOpen
    rw [addSite_has] at there
    rw [addSite_resolution] at isOpen
    have old := filed.distinct h there isOpen
    rw [waiting_addSite rooted there]
    split
    · rw [← List.concat_eq_append]
      refine old.concat fun member => ?_
      obtain ⟨x,-,recorded⟩ := (filed.waits h there isOpen site).mp member
      exact fresh x recorded
    · exact old

theorem Filed.union (filed : d.Filed R) (rooted : d.Rooted) (left : d.Has a) (right : d.Has b)
    (openLeft : d.resolution? a = none) (openRight : d.resolution? b = none) : (d.union a b).2.Filed R := by
  by_cases equal : d.root a = d.root b
  · rwa [union_of_same equal]
  have stays : ∀ g, d.Has g → (d.union a b).2.resolution? g = d.resolution? g :=
    fun g has => union_resolution rooted left openLeft openRight has
  refine ⟨fun g site recorded => (union_has d a b g).mpr (filed.known g site recorded),filed.once,?_,?_⟩
  · intro g has isOpen site
    rw [union_has] at has
    rw [stays g has] at isOpen
    have joined := fun h (recorded : R h site) => union_same_iff (a := a) (b := b) (filed.known h site recorded) has
    rw [waiting_union rooted left equal has]
    split
    · rename_i inside
      rw [List.mem_append,filed.waits a left openLeft,filed.waits b right openRight]
      constructor
      · rintro (⟨h,atA,recorded⟩ | ⟨h,atB,recorded⟩)
        · exact ⟨h,(joined h recorded).mpr (.inr ⟨.inl atA,inside⟩),recorded⟩
        · exact ⟨h,(joined h recorded).mpr (.inr ⟨.inr atB,inside⟩),recorded⟩
      · rintro ⟨h,same,recorded⟩
        have either : d.root h = d.root a ∨ d.root h = d.root b := by
          rcases (joined h recorded).mp same with atG | ⟨either,-⟩
          · rwa [atG]
          · exact either
        exact either.imp (fun atA => ⟨h,atA,recorded⟩) (fun atB => ⟨h,atB,recorded⟩)
    · rename_i outside
      rw [filed.waits g has isOpen]
      refine exists_congr fun h => and_congr_left fun recorded => ?_
      rw [joined h recorded,or_iff_left fun both => outside both.2]
  · intro g has isOpen
    rw [union_has] at has
    rw [stays g has] at isOpen
    rw [waiting_union rooted left equal has]
    split
    · -- A site of both would have been recorded for two groups.
      refine List.nodup_append.mpr ⟨filed.distinct a left openLeft,filed.distinct b right openRight,?_⟩
      rintro site inA other inB rfl
      obtain ⟨h,atA,recorded⟩ := (filed.waits a left openLeft site).mp inA
      exact filed.elsewhere right openRight recorded (atA.trans_ne equal) inB
    · exact filed.distinct g has isOpen

theorem Filed.resolve (filed : d.Filed R) (rooted : d.Rooted) (isOpen : d.resolution? g = none)
    (done : d.resolve g type = .ok e) : e.Filed R := by
  refine ⟨fun h site recorded => (resolve_has isOpen done).mpr (filed.known h site recorded),filed.once,?_,?_⟩
  · intro h has free site
    have has := (resolve_has isOpen done).mp has
    obtain ⟨apart,free⟩ := resolve_still_open rooted isOpen done has free
    simp only [resolve_root isOpen done]
    rw [waiting_resolve isOpen done apart]
    exact filed.waits h has free site
  · intro h has free
    have has := (resolve_has isOpen done).mp has
    obtain ⟨apart,free⟩ := resolve_still_open rooted isOpen done has free
    rw [waiting_resolve isOpen done apart]
    exact filed.distinct h has free

-- Sites lie among the events.
def Bounded (d : Draft) : Prop := ∀ i, ∀ site ∈ (d.cell i).sites, site < d.events.size

theorem Bounded.grow (bounded : d.Bounded) (longer : d.events.size ≤ e.events.size)
    (old : ∀ i, ∀ site ∈ (e.cell i).sites, ∃ j, site ∈ (d.cell j).sites) : e.Bounded := by
  intro i site member
  obtain ⟨j,known⟩ := old i site member
  exact Nat.lt_of_lt_of_le (bounded j site known) longer

theorem bounded_empty : Bounded {} := by simp [Bounded,cell]

theorem Bounded.push (bounded : d.Bounded) (event : Event) : (d.push event).Bounded :=
  bounded.grow (by simp) fun i _ member => ⟨i,member⟩

theorem Bounded.newGroup (bounded : d.Bounded) (wide : Bool) : (d.newGroup wide).2.Bounded := by
  refine bounded.grow (Nat.le_refl _) ?_
  intro i site member
  rw [newGroup_cell] at member
  split at member
  · cases member
  · exact ⟨i,member⟩

theorem Bounded.pushSite (bounded : d.Bounded) (g : Group) (i : Insn) : (d.pushSite g i).Bounded := by
  intro k site member
  simp only [Draft.pushSite,push_cell,addSite_cell,push_events,addSite_events,Array.size_push] at member ⊢
  split at member
  · rcases List.mem_append.mp member with old | new
    · exact Nat.lt_succ_of_lt (bounded k site old)
    · rw [List.mem_singleton.mp new]
      exact Nat.lt_succ_self _
  · exact Nat.lt_succ_of_lt (bounded k site member)

theorem Bounded.union (bounded : d.Bounded) (a b : Group) : (d.union a b).2.Bounded := by
  by_cases same : d.root a = d.root b
  · rwa [union_of_same same]
  · refine bounded.grow (by simp) ?_
    intro i site member
    by_cases inside : i < d.cells.size
    · rw [union_cell same inside] at member
      dsimp only at member
      split at member
      · rcases List.mem_append.mp member with own | moved
        · exact ⟨_,own⟩
        · exact ⟨_,moved⟩
      · split at member
        · cases member
        · exact ⟨i,member⟩
    · rw [cell,Array.getD_eq_getD_getElem?,Array.getElem?_eq_none (by simpa using inside)] at member
      cases member

theorem Bounded.resolve (bounded : d.Bounded) (isOpen : d.resolution? g = none) (done : d.resolve g type = .ok e) : e.Bounded := by
  refine bounded.grow (Nat.le_of_eq (resolve_events_size isOpen done).symm) ?_
  intro i site member
  rw [resolve_cell isOpen done] at member
  split at member
  · cases member
  · exact ⟨i,member⟩

end Restack.Draft
