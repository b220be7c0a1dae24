import Mathlib
import Restack.Proofs.Draft.Reached
import Restack.Proofs.Draft.Sites

namespace Restack.Draft

-- Drafts that differ at most in which of its members names a group. The same groups are one, they have the same types,
-- and the same events wait for them, in any order. Joining two groups the other way round leaves such drafts.

variable {d e m : Draft} {a b g h : Group} {type : Descriptor} {site : Nat} {sites others : List Nat}

structure Matches (d e : Draft) : Prop where
  left : d.Rooted
  right : e.Rooted
  size : e.cells.size = d.cells.size
  same : ∀ g h, d.Has g → d.Has h → (d.root g = d.root h ↔ e.root g = e.root h)
  types : ∀ g, d.Has g → e.resolution? g = d.resolution? g
  waits : ∀ g, d.Has g → d.resolution? g = none → (d.waiting g).Perm (e.waiting g)
  events : e.events = d.events

theorem Rooted.matches_self (rooted : d.Rooted) : Matches d d :=
  ⟨rooted,rooted,rfl,fun _ _ _ _ => .rfl,fun _ _ => rfl,fun _ _ _ => .refl _,rfl⟩

namespace Matches

variable (matched : Matches d e)
include matched

theorem has : e.Has g ↔ d.Has g := by
  unfold Has
  rw [matched.size]

theorem root_of_root (has : d.Has g) : d.root ⟨e.root g⟩ = d.root g := by
  have there := matched.has.mpr has
  exact (matched.same _ g (matched.has.mp (matched.right.has_root there)) has).mpr (matched.right.root_root there)

end Matches

theorem Matches.union (matched : Matches d e) (left : d.Has a) (right : d.Has b) (openLeft : d.resolution? a = none)
    (openRight : d.resolution? b = none) : Matches (d.union a b).2 (e.union b a).2 := by
  have old : ∀ g, (d.union a b).2.Has g → d.Has g := fun g => (union_has d a b g).mp
  have there : ∀ g, d.Has g → e.Has g := fun g => matched.has.mpr
  have stays : ∀ g, d.Has g → (d.union a b).2.resolution? g = d.resolution? g :=
    fun g has => union_resolution matched.left left openLeft openRight has
  have staysToo : ∀ g, d.Has g → (e.union b a).2.resolution? g = e.resolution? g := fun g has =>
    union_resolution matched.right (there b right) ((matched.types b right).trans openRight)
      ((matched.types a left).trans openLeft) (there g has)
  refine ⟨union_rooted matched.left left,union_rooted matched.right (there b right),by simp [matched.size],?_,?_,?_,by simp [matched.events]⟩
  · intro g h hasG hasH
    have hasG := old g hasG
    have hasH := old h hasH
    rw [union_same_iff hasG hasH,union_same_iff (there g hasG) (there h hasH),matched.same g h hasG hasH,
      matched.same g a hasG left,matched.same g b hasG right,matched.same h a hasH left,matched.same h b hasH right]
    tauto
  · intro g has
    rw [stays g (old g has),staysToo g (old g has),matched.types g (old g has)]
  · intro g has isOpen
    have has := old g has
    rw [stays g has] at isOpen
    by_cases one : d.root a = d.root b
    · rw [union_of_same one,union_of_same ((matched.same a b left right).mp one).symm]
      exact matched.waits g has isOpen
    · have apart : e.root b ≠ e.root a := fun equal => one ((matched.same a b left right).mpr equal.symm)
      have alike : e.root g = e.root b ∨ e.root g = e.root a ↔ d.root g = d.root a ∨ d.root g = d.root b := by
        rw [matched.same g a has left,matched.same g b has right,or_comm]
      rw [waiting_union matched.left left one has,waiting_union matched.right (there b right) apart (there g has)]
      simp only [alike]
      split
      · exact ((matched.waits a left openLeft).append (matched.waits b right openRight)).trans List.perm_append_comm
      · exact matched.waits g has isOpen

-- Giving a type. What happens to the events depends on them and on the sites alone, not on the order of the sites.

theorem retypeSite_eq_ok : retypeSite type d site = .ok e ↔
    ∃ i j, d.events[site]? = some (.insn i) ∧ i.retype type = .ok j ∧ e = { d with events := d.events.setIfInBounds site (.insn j) } := by
  constructor
  · intro done
    obtain ⟨i,j,found,retyped,written⟩ := retypeSite_events done
    have cells := retypeSite_cells done
    exact ⟨i,j,found,retyped,by rw [← written,← cells]⟩
  · rintro ⟨i,j,found,retyped,rfl⟩
    simp [retypeSite,found,retyped]

theorem retypeSite_swap {one two : Nat} (first : retypeSite type d one = .ok m) (second : retypeSite type m two = .ok e) :
    ∃ n, retypeSite type d two = .ok n ∧ retypeSite type n one = .ok e := by
  by_cases equal : one = two
  · subst equal
    exact ⟨m,first,second⟩
  · obtain ⟨i,j,found,retyped,rfl⟩ := retypeSite_eq_ok.mp first
    obtain ⟨k,l,next,changed,rfl⟩ := retypeSite_eq_ok.mp second
    rw [Array.getElem?_setIfInBounds,if_neg equal] at next
    refine ⟨_,retypeSite_eq_ok.mpr ⟨k,l,next,changed,rfl⟩,retypeSite_eq_ok.mpr ⟨i,j,?_,retyped,?_⟩⟩
    · rw [Array.getElem?_setIfInBounds,if_neg (Ne.symm equal)]
      exact found
    · rw [Array.setIfInBounds_comm _ _ equal]

theorem retypeSites_perm (order : sites.Perm others) (done : sites.foldlM (retypeSite type) d = .ok e) :
    others.foldlM (retypeSite type) d = .ok e := by
  induction order generalizing d with
  | nil => exact done
  | cons site _ ih =>
    rw [List.foldlM_cons,bind_eq_ok] at done ⊢
    obtain ⟨m,first,rest⟩ := done
    exact ⟨m,first,ih rest⟩
  | swap one two rest =>
    simp only [List.foldlM_cons,bind_eq_ok] at done ⊢
    obtain ⟨m,first,n,second,rest⟩ := done
    obtain ⟨k,second,first⟩ := retypeSite_swap first second
    exact ⟨k,second,n,first,rest⟩
  | trans _ _ first second => exact second (first done)

theorem retypeSites_elsewhere (events : e.events = d.events) (done : sites.foldlM (retypeSite type) d = .ok m) :
    sites.foldlM (retypeSite type) e = .ok { e with events := m.events } := by
  induction sites generalizing d e with
  | nil =>
    cases done
    rw [← events]
    rfl
  | cons site rest ih =>
    rw [List.foldlM_cons,bind_eq_ok] at done ⊢
    obtain ⟨n,first,rest⟩ := done
    obtain ⟨i,j,found,retyped,rfl⟩ := retypeSite_eq_ok.mp first
    rw [← events] at found
    refine ⟨_,retypeSite_eq_ok.mpr ⟨i,j,found,retyped,rfl⟩,?_⟩
    exact ih (by rw [events]) rest

theorem resolve_eq (isOpen : d.resolution? g = none) :
    d.resolve g type = (d.waiting g).foldlM (retypeSite type) (d.given g type) := by
  simp only [resolution?] at isOpen
  simp [resolve,isOpen,waiting,given]

theorem Matches.resolve (matched : Matches d e) (has : d.Has g) (isOpen : d.resolution? g = none)
    (done : d.resolve g type = .ok m) : ∃ n, e.resolve g type = .ok n ∧ Matches m n := by
  have openToo := (matched.types g has).trans isOpen
  have there : ∀ h, d.Has h → e.Has h := fun h => matched.has.mpr
  have sites := done
  rw [resolve_eq isOpen] at sites
  have events : (e.given g type).events = (d.given g type).events := matched.events
  have again := retypeSites_elsewhere events (retypeSites_perm (matched.waits g has isOpen) sites)
  rw [← resolve_eq openToo] at again
  have old : ∀ h, m.Has h → d.Has h := fun _ => (resolve_has isOpen done).mp
  refine ⟨_,again,resolve_rooted matched.left isOpen done,resolve_rooted matched.right openToo again,?_,?_,?_,?_,rfl⟩
  · rw [resolve_size openToo again,resolve_size isOpen done,matched.size]
  · intro h k hasH hasK
    rw [resolve_root isOpen done,resolve_root isOpen done,resolve_root openToo again,resolve_root openToo again]
    exact matched.same h k (old h hasH) (old k hasK)
  · intro h hasH
    have hasH := old h hasH
    rw [resolve_resolution matched.left isOpen done hasH,resolve_resolution matched.right openToo again (there h hasH),
      matched.types h hasH]
    simp only [matched.same h g hasH has]
  · intro h hasH still
    have hasH := old h hasH
    obtain ⟨apart,still⟩ := resolve_still_open matched.left isOpen done hasH still
    rw [waiting_resolve isOpen done apart,waiting_resolve openToo again ((matched.same h g hasH has).not.mp apart)]
    exact matched.waits h hasH still

end Restack.Draft
