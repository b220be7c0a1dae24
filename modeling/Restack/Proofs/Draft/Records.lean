import Mathlib
import Restack.Proofs.Draft.History

namespace Restack.Draft

-- The sites of groups by their history. What waits for an open group is what was recorded for any
-- group joined with it, each site once; nothing waits anywhere else.

variable {events : Array Event} {calls : List Call} {c : Call} {d e : Draft} {a b g h : Group} {type : Descriptor} {site : Nat}
  {wide : Bool}

structure Queued (calls : List Call) (d : Draft) : Prop where
  once : ∀ g h site, .addSite g site ∈ calls → .addSite h site ∈ calls → g = h
  waits : ∀ g, d.Has g → d.resolution? g = none →
    ∀ site, site ∈ d.waiting g ↔ ∃ h, d.root h = d.root g ∧ .addSite h site ∈ calls
  distinct : ∀ g, d.Has g → d.resolution? g = none → (d.waiting g).Nodup
  idle : ∀ i < d.cells.size, (d.cell i).root ≠ i ∨ (d.cell i).resolved.isSome → (d.cell i).sites = []

theorem queued_start (events : Array Event) : Queued [] { events } := by
  refine ⟨?_,?_,?_,?_⟩
  · intro g h site member
    cases member
  · intro g has
    simp [Has] at has
  · intro g has
    simp [Has] at has
  · intro i small
    simp at small

theorem Queued.filed (before : Queued calls d) (parts : Partitioned calls d) : d.Filed fun g site => .addSite g site ∈ calls :=
  ⟨parts.known,before.once,before.waits,before.distinct⟩

theorem queued_snoc (filed : d.Filed fun g site => .addSite g site ∈ calls) (plain : ∀ g site, c ≠ .addSite g site)
    (idle : ∀ i < d.cells.size, (d.cell i).root ≠ i ∨ (d.cell i).resolved.isSome → (d.cell i).sites = []) :
    Queued (calls ++ [c]) d := by
  have same : d.Filed fun g site => .addSite g site ∈ calls ++ [c] := filed.congr fun g site => mem_snoc_other (plain g site).symm
  exact ⟨same.once,same.waits,same.distinct,idle⟩

theorem Queued.quiet (before : Queued calls d) (parts : Partitioned calls d) (plain : ∀ g site, c ≠ .addSite g site)
    (events : Array Event) : Queued (calls ++ [c]) { d with events } :=
  queued_snoc ((before.filed parts).events events) plain before.idle

theorem Queued.group (before : Queued calls d) (parts : Partitioned calls d) (wide : Bool) :
    Queued (calls ++ [.group wide]) (d.newGroup wide).2 := by
  refine queued_snoc ((before.filed parts).newGroup parts.rooted wide) (by simp) ?_
  intro i small moved
  rw [newGroup_size] at small
  rw [newGroup_cell] at moved ⊢
  split
  · rfl
  · rename_i old
    rw [if_neg old] at moved
    exact before.idle i (by omega) moved

theorem Queued.addSite (before : Queued calls d) (parts : Partitioned calls d) (has : d.Has g)
    (isOpen : d.resolution? g = none) (fresh : ∀ h, .addSite h site ∉ calls) :
    Queued (calls ++ [.addSite g site]) (d.addSite g site) := by
  have filed : (d.addSite g site).Filed fun h k => .addSite h k ∈ calls ++ [.addSite g site] :=
    ((before.filed parts).addSite parts.rooted has fresh).congr fun h k => by simp
  refine ⟨filed.once,filed.waits,filed.distinct,?_⟩
  intro i small moved
  rw [addSite_size] at small
  simp only [addSite_cell_root,addSite_cell_resolved] at moved
  rw [addSite_cell,if_neg]
  · exact before.idle i small moved
  · -- The cell that gets the site is a root without a type.
    rintro ⟨rfl,-⟩
    rcases moved with away | known
    · exact away (parts.rooted.root_root has)
    · rw [show (d.cell (d.root g)).resolved = none from isOpen] at known
      cases known

theorem Queued.union (before : Queued calls d) (parts : Partitioned calls d) (left : d.Has a) (right : d.Has b)
    (openLeft : d.resolution? a = none) (openRight : d.resolution? b = none) :
    Queued (calls ++ [.union a b]) (d.union a b).2 := by
  refine queued_snoc ((before.filed parts).union parts.rooted left right openLeft openRight) (by simp) ?_
  by_cases equal : d.root a = d.root b
  · rw [union_of_same equal]
    exact before.idle
  intro i small moved
  rw [union_size] at small
  rw [union_cell equal small] at moved ⊢
  dsimp only at moved ⊢
  split
  · rename_i atA
    subst atA
    have self : (d.cell (d.root a)).root = d.root a := parts.rooted.root_root left
    have unknown : (d.cell (d.root a)).resolved = none := openLeft
    simp [self,unknown,equal] at moved
  · split
    · rfl
    · rename_i notB
      refine before.idle i small ?_
      rcases moved with away | known
      · refine .inl fun self => away ?_
        rw [self,if_neg notB]
      · exact .inr known

theorem Queued.resolve (before : Queued calls d) (parts : Partitioned calls d) (isOpen : d.resolution? g = none)
    (done : d.resolve g type = .ok e) : Queued (calls ++ [.resolve g type]) e := by
  refine queued_snoc ((before.filed parts).resolve parts.rooted isOpen done) (by simp) ?_
  intro i small moved
  rw [resolve_size isOpen done] at small
  rw [resolve_cell isOpen done] at moved ⊢
  split
  · rfl
  · rename_i apart
    rw [if_neg apart] at moved
    exact before.idle i small moved

theorem Queued.call (before : Queued calls d) (parts : Partitioned calls d) (allowed : c.Allowed calls d)
    (done : c.run d = .ok e) : Queued (calls ++ [c]) e := by
  cases c with
  | group wide =>
    cases done
    exact before.group parts wide
  | addSite g site =>
    cases done
    obtain ⟨has,isOpen,fresh⟩ := allowed
    exact before.addSite parts has isOpen fresh
  | union a b =>
    cases done
    obtain ⟨left,right,openLeft,openRight,-⟩ := allowed
    exact before.union parts left right openLeft openRight
  | same a b | resolution g =>
    cases done
    exact before.quiet parts (by simp) d.events
  | resolve g type =>
    rcases resolve_open_or_same done with isOpen | rfl
    · exact before.resolve parts isOpen done
    · exact before.quiet parts (by simp) e.events
  | push event =>
    cases done
    exact before.quiet parts (by simp) _

theorem History.queued (ran : History events calls d) : Queued calls d := by
  unfold History at ran
  induction ran with
  | refl => exact queued_start events
  | call before allowed done ih => exact ih.call (History.partitioned before) allowed done

end Restack.Draft
