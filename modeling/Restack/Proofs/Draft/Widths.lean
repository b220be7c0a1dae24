import Mathlib
import Restack.Proofs.Draft.Settles

namespace Restack.Draft

-- Widths of groups. A group keeps the width it was made with, all groups of one root have
-- one width, and a narrow group never gets a wide type.

variable {d e m : Draft} {a b g h : Group} {wide : Bool} {event : Event} {insn : Insn} {type : Descriptor} {i : Nat}

def isWide (d : Draft) (g : Group) : Bool := (d.cell g.id).wide

structure Levelled (d : Draft) : Prop extends Rooted d where
  level : ∀ g, d.Has g → d.isWide ⟨d.root g⟩ = d.isWide g

structure Gauged (d : Draft) : Prop extends Levelled d where
  narrow : ∀ g type, d.Has g → d.resolution? g = some type → type.isWide = true → d.isWide g = true

structure Retains (d e : Draft) : Prop where
  has : ∀ g, d.Has g → e.Has g
  width : ∀ g, d.Has g → e.isWide g = d.isWide g

theorem Retains.refl (d : Draft) : Retains d d := ⟨fun _ has => has,fun _ _ => rfl⟩

theorem Retains.trans (first : Retains d m) (second : Retains m e) : Retains d e :=
  ⟨fun g has => second.has g (first.has g has),fun g has => (second.width g (first.has g has)).trans (first.width g has)⟩

theorem Levelled.width_of_root (levelled : d.Levelled) (left : d.Has g) (right : d.Has h) (same : d.root g = d.root h) :
    d.isWide g = d.isWide h := by
  rw [← levelled.level g left,← levelled.level h right,same]

theorem gauged_empty : Gauged {} := by
  refine ⟨⟨rooted_empty,?_⟩,?_⟩
  · intro g has
    simp [Has] at has
  · intro g type has
    simp [Has] at has

theorem retains_push (d : Draft) (event : Event) : Retains d (d.push event) := ⟨fun _ has => has,fun _ _ => rfl⟩

theorem Gauged.push (gauged : d.Gauged) (event : Event) : (d.push event).Gauged :=
  ⟨⟨push_rooted gauged.toRooted,gauged.level⟩,gauged.narrow⟩

@[simp] theorem addSite_isWide (d : Draft) (g h : Group) (site : Nat) : (d.addSite g site).isWide h = d.isWide h := by
  unfold isWide
  rw [addSite_cell]
  split <;> rfl

theorem Levelled.addSite (levelled : d.Levelled) (g : Group) (site : Nat) : (d.addSite g site).Levelled := by
  refine ⟨addSite_rooted levelled.toRooted,?_⟩
  intro h has
  simpa using levelled.level h ((addSite_has d g h site).mp has)

theorem retains_pushSite (d : Draft) (g : Group) (insn : Insn) : Retains d (d.pushSite g insn) := by
  refine ⟨?_,fun h _ => addSite_isWide d g h d.events.size⟩
  intro h has
  simpa [pushSite] using has

theorem Gauged.pushSite (gauged : d.Gauged) (g : Group) (insn : Insn) : (d.pushSite g insn).Gauged := by
  apply Gauged.push
  refine ⟨gauged.toLevelled.addSite g _,?_⟩
  intro h type has known wide
  simpa using gauged.narrow h type ((addSite_has d g h _).mp has) (by simpa using known) wide

theorem newGroup_isWide (has : d.Has g) : (d.newGroup wide).2.isWide g = d.isWide g := by
  unfold isWide
  rw [newGroup_cell,if_neg (Nat.ne_of_lt has)]

theorem retains_newGroup (d : Draft) (wide : Bool) : Retains d (d.newGroup wide).2 :=
  ⟨fun _ => has_newGroup,fun _ => newGroup_isWide⟩

theorem Levelled.newGroup (levelled : d.Levelled) (wide : Bool) : (d.newGroup wide).2.Levelled := by
  refine ⟨newGroup_rooted levelled.toRooted,?_⟩
  intro g has
  rcases newGroup_has has with old | rfl
  · rw [newGroup_root old,newGroup_isWide old,newGroup_isWide (levelled.has_root old),levelled.level g old]
  · simp [root,newGroup_cell]

theorem Gauged.newGroup (gauged : d.Gauged) (wide : Bool) : (d.newGroup wide).2.Gauged := by
  refine ⟨gauged.toLevelled.newGroup wide,?_⟩
  intro g type has known
  rcases newGroup_has has with old | rfl
  · rw [newGroup_resolution gauged.toRooted old] at known
    rw [newGroup_isWide old]
    exact gauged.narrow g type old known
  · rw [newGroup_open] at known
    cases known

theorem union_isWide (d : Draft) (a b : Group) (has : d.Has g) : (d.union a b).2.isWide g = d.isWide g := by
  by_cases same : d.root a = d.root b
  · rw [union_of_same same]
  · unfold isWide
    rw [union_cell same has]

theorem retains_union (d : Draft) (a b : Group) : Retains d (d.union a b).2 :=
  ⟨fun g => (union_has d a b g).mpr,fun _ => union_isWide d a b⟩

theorem Levelled.union (levelled : d.Levelled) (left : d.Has a) (right : d.Has b) (even : d.isWide a = d.isWide b) :
    (d.union a b).2.Levelled := by
  refine ⟨union_rooted levelled.toRooted left,?_⟩
  intro g has
  have old : d.Has g := (union_has d a b g).mp has
  rw [union_root old,union_isWide d a b old]
  split
  · rename_i moved
    rw [union_isWide d a b (levelled.has_root left),levelled.level a left,even,levelled.width_of_root right old moved.symm]
  · rw [union_isWide d a b (levelled.has_root old),levelled.level g old]

theorem Gauged.union (gauged : d.Gauged) (left : d.Has a) (right : d.Has b) (openLeft : d.resolution? a = none)
    (openRight : d.resolution? b = none) (even : d.isWide a = d.isWide b) : (d.union a b).2.Gauged := by
  refine ⟨gauged.toLevelled.union left right even,?_⟩
  intro g type has known
  have old : d.Has g := (union_has d a b g).mp has
  rw [union_resolution gauged.toRooted left openLeft openRight old] at known
  rw [union_isWide d a b old]
  exact gauged.narrow g type old known

theorem resolve_isWide (isOpen : d.resolution? g = none) (done : d.resolve g type = .ok e) (h : Group) :
    e.isWide h = d.isWide h := by
  unfold isWide
  rw [resolve_cell isOpen done]
  split <;> rfl

theorem retains_resolve (done : d.resolve g type = .ok e) : Retains d e := by
  rcases resolve_open_or_same done with isOpen | rfl
  · exact ⟨fun _ => (resolve_has isOpen done).mpr,fun h _ => resolve_isWide isOpen done h⟩
  · exact .refl _

theorem Levelled.resolve (levelled : d.Levelled) (isOpen : d.resolution? g = none) (done : d.resolve g type = .ok e) :
    e.Levelled := by
  refine ⟨resolve_rooted levelled.toRooted isOpen done,?_⟩
  intro h here
  have old : d.Has h := (resolve_has isOpen done).mp here
  rw [resolve_root isOpen done,resolve_isWide isOpen done,resolve_isWide isOpen done,levelled.level h old]

theorem Gauged.resolve (gauged : d.Gauged) (has : d.Has g) (fits : type.isWide = true → d.isWide g = true)
    (done : d.resolve g type = .ok e) : e.Gauged := by
  rcases resolve_open_or_same done with isOpen | rfl
  · refine ⟨gauged.toLevelled.resolve isOpen done,?_⟩
    intro h other here known wide
    have old : d.Has h := (resolve_has isOpen done).mp here
    rw [resolve_resolution gauged.toRooted isOpen done old] at known
    rw [resolve_isWide isOpen done]
    split at known
    · rename_i same
      cases known
      rw [gauged.width_of_root old has same]
      exact fits wide
    · exact gauged.narrow h other old known wide
  · exact gauged

theorem Gauged.resolveDefault (gauged : d.Gauged) (inside : i < d.cells.size) (done : d.resolveDefault i = .ok e) :
    e.Gauged ∧ Retains d e := by
  unfold Draft.resolveDefault at done
  dsimp only at done
  split at done
  · cases done
    exact ⟨gauged,.refl _⟩
  · refine ⟨gauged.resolve inside ?_ done,retains_resolve done⟩
    intro wide
    unfold defaultType at wide
    split at wide
    · rename_i isWide
      exact isWide
    · cases wide

theorem Gauged.resolveDefaults (gauged : d.Gauged) (done : d.resolveDefaults = .ok e) : e.Gauged ∧ Retains d e := by
  refine foldlM_keeps (P := fun m => m.Gauged ∧ Retains d m) ?_ ⟨gauged,.refl _⟩ done
  rintro m i n member ⟨before,kept⟩ step
  have inside : i < m.cells.size := kept.has ⟨i⟩ (List.mem_range.mp member)
  obtain ⟨after,further⟩ := before.resolveDefault inside step
  exact ⟨after,kept.trans further⟩

end Restack.Draft
