import Mathlib
import Restack.Proofs.Draft.Groups

namespace Restack.Draft

-- What lowering does to groups that are there already: it joins open ones, and
-- it gives open ones their type. `P` bounds the types that are given.

structure Sound (P : Descriptor → Prop) (d : Draft) : Prop extends Rooted d where
  types : ∀ g t, d.Has g → d.resolution? g = some t → P t

inductive Settles (P : Descriptor → Prop) : Draft → Draft → Prop where
  | refl {d : Draft} : Settles P d d
  | unite {d m : Draft} {a b : Group} : Settles P d m → m.Has a → m.Has b →
      m.resolution? a = none → m.resolution? b = none → Settles P d (m.union a b).2
  | resolve {d m e : Draft} {g : Group} {type : Descriptor} : Settles P d m → m.Has g →
      m.resolution? g = none → P type → m.resolve g type = .ok e → Settles P d e

variable {P : Descriptor → Prop} {d e m : Draft} {a b g h : Group} {type : Descriptor} {i : Nat}

theorem Settles.trans (first : Settles P d m) (second : Settles P m e) : Settles P d e := by
  induction second with
  | refl => exact first
  | unite _ left right openLeft openRight ih => exact .unite ih left right openLeft openRight
  | resolve _ has isOpen typed done ih => exact .resolve ih has isOpen typed done

theorem settles_union (left : d.Has a) (right : d.Has b) (openLeft : d.resolution? a = none)
    (openRight : d.resolution? b = none) : Settles P d (d.union a b).2 :=
  .unite .refl left right openLeft openRight

theorem settles_resolve (has : d.Has g) (typed : P type) (done : d.resolve g type = .ok e) : Settles P d e := by
  cases known : d.resolution? g with
  | none => exact .resolve .refl has known typed done
  | some old =>
    rw [resolve_of_resolved (by simp [known])] at done
    cases done
    exact .refl

theorem Settles.size (path : Settles P d e) : e.cells.size = d.cells.size := by
  induction path with
  | refl => rfl
  | unite _ _ _ _ _ ih => rw [union_size,ih]
  | resolve _ _ isOpen _ done ih => rw [resolve_size isOpen done,ih]

theorem Settles.has (path : Settles P d e) : e.Has g ↔ d.Has g := by
  unfold Has
  rw [path.size]

theorem Settles.sound (sound : d.Sound P) (path : Settles P d e) : e.Sound P := by
  induction path with
  | refl => exact sound
  | @unite m a b prior left right openLeft openRight ih =>
    refine ⟨union_rooted ih.toRooted left,?_⟩
    intro g t has known
    have old : m.Has g := (union_has m a b g).mp has
    rw [union_resolution ih.toRooted left openLeft openRight old] at known
    exact ih.types g t old known
  | @resolve m e k type prior has isOpen typed done ih =>
    refine ⟨resolve_rooted ih.toRooted isOpen done,?_⟩
    intro g t here known
    have old : m.Has g := (resolve_has isOpen done).mp here
    rw [resolve_resolution ih.toRooted isOpen done old] at known
    split at known
    · cases known
      exact typed
    · exact ih.types g t old known

-- Later drafts know more: groups that were one stay one, and types stay.
structure Extends (d e : Draft) : Prop where
  has : ∀ g, d.Has g → e.Has g
  same : ∀ g h, d.Has g → d.Has h → d.root g = d.root h → e.root g = e.root h
  type : ∀ g t, d.Has g → d.resolution? g = some t → e.resolution? g = some t

theorem Extends.refl (d : Draft) : Extends d d := ⟨fun _ h => h,fun _ _ _ _ h => h,fun _ _ _ h => h⟩

theorem Extends.trans (first : Extends d m) (second : Extends m e) : Extends d e := by
  refine ⟨fun g h => second.has g (first.has g h),?_,?_⟩
  · intro g h left right equal
    exact second.same g h (first.has g left) (first.has h right) (first.same g h left right equal)
  · intro g t here known
    exact second.type g t (first.has g here) (first.type g t here known)

theorem extends_newGroup (rooted : d.Rooted) (wide : Bool) : Extends d (d.newGroup wide).2 := by
  refine ⟨fun _ => has_newGroup,?_,?_⟩
  · intro g h left right equal
    rw [newGroup_root left,newGroup_root right,equal]
  · intro g t here known
    rw [newGroup_resolution rooted here,known]

theorem extends_push (d : Draft) (event : Event) : Extends d (d.push event) :=
  ⟨fun _ h => h,fun _ _ _ _ h => h,fun _ _ _ h => h⟩

theorem extends_pushSite (d : Draft) (g : Group) (i : Insn) : Extends d (d.pushSite g i) := by
  refine ⟨?_,?_,?_⟩
  · intro h here
    simpa [pushSite] using here
  · intro h k _ _ equal
    simpa [pushSite] using equal
  · intro h t _ known
    simpa [pushSite] using known

theorem Settles.extends (sound : d.Sound P) (path : Settles P d e) : Extends d e := by
  induction path with
  | refl => exact .refl _
  | unite prior left right openLeft openRight ih =>
    have rooted := (prior.sound sound).toRooted
    refine ih.trans ⟨fun g => (union_has _ _ _ g).mpr,?_,?_⟩
    · intro g h here there equal
      rw [union_root here,union_root there,equal]
    · intro g t here known
      rw [union_resolution rooted left openLeft openRight here,known]
  | resolve prior has isOpen typed done ih =>
    have rooted := (prior.sound sound).toRooted
    refine ih.trans ⟨fun _ => (resolve_has isOpen done).mpr,?_,?_⟩
    · intro g h _ _ equal
      rw [resolve_root isOpen done,resolve_root isOpen done,equal]
    · intro g t here known
      rw [resolve_resolution rooted isOpen done here,if_neg,known]
      intro same
      rw [resolution_of_root same,isOpen] at known
      cases known

-- At the end every group that is its own root gets the type of its width, unless it has one.

theorem resolveDefault_settles (sound : d.Sound P) (defaults : ∀ wide, P (defaultType wide)) (inside : i < d.cells.size)
    (done : d.resolveDefault i = .ok e) :
    Settles P d e ∧ (∀ g, e.root g = d.root g) ∧ (d.root ⟨i⟩ = i → (e.resolution? ⟨i⟩).isSome) := by
  unfold resolveDefault at done
  dsimp only at done
  split at done
  · rename_i skipped
    cases done
    refine ⟨.refl,fun _ => rfl,?_⟩
    intro self
    have self : (d.cell i).root = i := self
    simp only [self,ne_eq,not_true_eq_false,decide_false,Bool.false_or] at skipped
    simpa [resolution?,root,self] using skipped
  · rename_i needed
    simp only [ne_eq,Bool.or_eq_true,decide_eq_true_eq,not_or,Bool.not_eq_true,Option.isSome_eq_false_iff,
      Option.isNone_iff_eq_none,not_not] at needed
    obtain ⟨self,unknown⟩ := needed
    have isOpen : d.resolution? ⟨i⟩ = none := by simp [resolution?,root,self,unknown]
    refine ⟨settles_resolve inside (defaults _) done,resolve_root isOpen done,?_⟩
    intro _
    rw [resolve_resolution sound.toRooted isOpen done inside,if_pos rfl]
    rfl

theorem resolveDefaults_upto (sound : d.Sound P) (defaults : ∀ wide, P (defaultType wide)) (n : Nat)
    (few : n ≤ d.cells.size) (done : (List.range n).foldlM resolveDefault d = .ok e) :
    Settles P d e ∧ (∀ g, e.root g = d.root g) ∧ ∀ i < n, d.root ⟨i⟩ = i → (e.resolution? ⟨i⟩).isSome := by
  induction n generalizing e with
  | zero =>
    cases done
    exact ⟨.refl,fun _ => rfl,fun i small => absurd small (Nat.not_lt_zero i)⟩
  | succ n ih =>
    rw [List.range_succ,foldlM_snoc_ok] at done
    obtain ⟨m,prior,last⟩ := done
    obtain ⟨path,roots,known⟩ := ih (by omega) prior
    have inside : n < m.cells.size := by rw [path.size]; omega
    obtain ⟨step,kept,fresh⟩ := resolveDefault_settles (path.sound sound) defaults inside last
    refine ⟨path.trans step,fun g => (kept g).trans (roots g),?_⟩
    intro i small self
    rcases Nat.lt_succ_iff_lt_or_eq.mp small with earlier | rfl
    · have before := known i earlier self
      obtain ⟨type,found⟩ := Option.isSome_iff_exists.mp before
      have has : m.Has ⟨i⟩ := by simp only [Has,path.size]; omega
      rw [(step.extends (path.sound sound)).type ⟨i⟩ type has found]
      rfl
    · exact fresh ((roots _).trans self)

theorem resolveDefaults_settles (sound : d.Sound P) (defaults : ∀ wide, P (defaultType wide))
    (done : d.resolveDefaults = .ok e) : Settles P d e ∧ ∀ g, e.Has g → ∃ type, e.resolution? g = some type := by
  obtain ⟨path,roots,known⟩ := resolveDefaults_upto sound defaults _ (Nat.le_refl _) done
  refine ⟨path,?_⟩
  intro g has
  have old := path.has.mp has
  have final := known (d.root g) (sound.root_bound old) (sound.root_root old)
  obtain ⟨type,found⟩ := Option.isSome_iff_exists.mp final
  refine ⟨type,?_⟩
  rw [← found]
  apply resolution_of_root
  rw [roots,roots,sound.root_root old]

end Restack.Draft
