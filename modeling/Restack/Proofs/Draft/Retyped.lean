import Mathlib
import Restack.Proofs.Draft.Records

namespace Restack.Draft

-- The events of a draft by its history: an event has the form in which it was written, until a group
-- that it was recorded for gets its type, and from then on the form of that type.

variable {events : Array Event} {calls later : List Call} {c : Call} {d e : Draft} {a b g h : Group} {type : Descriptor}
  {site k i : Nat} {wide : Bool}

structure Formed (events : Array Event) (calls : List Call) (d : Draft) : Prop where
  size : d.events.size = (written events calls).length
  retyped : ∀ g site type, .addSite g site ∈ calls → d.resolution? g = some type →
    ∃ i j, (written events calls)[site]? = some (.insn i) ∧ i.retype type = .ok j ∧ d.events[site]? = some (.insn j)
  kept : ∀ site, (∀ g, .addSite g site ∈ calls → d.resolution? g = none) →
    d.events[site]? = (written events calls)[site]?

theorem written_snoc (silent : c.event? = none) : written events (calls ++ [c]) = written events calls := by
  simp [written,silent]

theorem written_push (events : Array Event) (calls : List Call) (event : Event) :
    written events (calls ++ [.push event]) = written events calls ++ [event] := by
  simp [written,Call.event?]

theorem formed_start (events : Array Event) : Formed events [] { events } := by
  refine ⟨by simp [written],?_,?_⟩
  · intro g site type member
    cases member
  · intro site _
    simp [written]

theorem Formed.quiet (before : Formed events calls d) (silent : c.event? = none) (same : e.events = d.events)
    (types : ∀ g site, .addSite g site ∈ calls → e.resolution? g = d.resolution? g)
    (new : ∀ g site, .addSite g site ∈ calls ++ [c] → .addSite g site ∈ calls ∨ e.resolution? g = none) :
    Formed events (calls ++ [c]) e := by
  refine ⟨?_,?_,?_⟩
  · rw [written_snoc silent,same]
    exact before.size
  · intro g site type member known
    rw [written_snoc silent,same]
    rcases new g site member with old | free
    · rw [types g site old] at known
      exact before.retyped g site type old known
    · rw [free] at known
      cases known
  · intro site free
    rw [written_snoc silent,same]
    refine before.kept site fun g member => ?_
    rw [← types g site member]
    exact free g (List.mem_append_left _ member)

theorem Formed.push (before : Formed events calls d) (event : Event) :
    Formed events (calls ++ [.push event]) (d.push event) := by
  have same : ∀ g site, Call.addSite g site ∈ calls ++ [.push event] ↔ .addSite g site ∈ calls :=
    fun g site => mem_snoc_other (by simp)
  refine ⟨?_,?_,?_⟩
  · simp [written_push,before.size]
  · intro g site type member known
    obtain ⟨i,j,found,retyped,final⟩ := before.retyped g site type ((same g site).mp member) known
    refine ⟨i,j,?_,retyped,?_⟩
    · rw [written_push]
      exact List.getElem?_append_left (List.getElem?_eq_some_iff.mp found).1 ▸ found
    · rw [push_events,Array.getElem?_push,if_neg]
      · exact final
      · exact Nat.ne_of_lt (Array.getElem?_eq_some_iff.mp final).1
  · intro site free
    have old := before.kept site fun g member => free g ((same g site).mpr member)
    rw [push_events,written_push,Array.getElem?_push,List.getElem?_append,← before.size]
    by_cases inside : site < d.events.size
    · rw [if_neg (Nat.ne_of_lt inside),if_pos inside]
      exact old
    · rw [if_neg inside]
      by_cases last : site = d.events.size
      · simp [last]
      · rw [if_neg last,Array.getElem?_eq_none (by omega),List.getElem?_eq_none (by simp; omega)]

theorem Formed.resolve (before : Formed events calls d) (parts : Partitioned calls d) (queued : Queued calls d) (has : d.Has g)
    (isOpen : d.resolution? g = none) (done : d.resolve g type = .ok e) : Formed events (calls ++ [.resolve g type]) e := by
  have same : ∀ h site, Call.addSite h site ∈ calls ++ [.resolve g type] ↔ .addSite h site ∈ calls :=
    fun h site => mem_snoc_other (by simp)
  have types : ∀ h site, .addSite h site ∈ calls →
      e.resolution? h = if d.root h = d.root g then some type else d.resolution? h :=
    fun h site member => resolve_resolution parts.rooted isOpen done (parts.known h site member)
  refine ⟨?_,?_,?_⟩
  · rw [written_snoc rfl,resolve_events_size isOpen done]
    exact before.size
  · intro h site other member known
    rw [same] at member
    rw [types h site member] at known
    rw [written_snoc rfl]
    split at known
    · rename_i equal
      cases known
      have waits : site ∈ d.waiting g := (queued.waits g has isOpen site).mpr ⟨h,equal,member⟩
      obtain ⟨i,j,found,retyped,final⟩ := resolve_waiting isOpen done (queued.distinct g has isOpen) waits
      refine ⟨i,j,?_,retyped,final⟩
      rw [← before.kept site,found]
      intro x recorded
      rw [queued.once x h site recorded member,resolution_of_root equal]
      exact isOpen
    · rename_i apart
      rw [resolve_elsewhere isOpen done ((queued.filed parts).elsewhere has isOpen member apart)]
      exact before.retyped h site other member known
  · intro site free
    simp only [same] at free
    rw [written_snoc rfl,resolve_elsewhere isOpen done]
    · refine before.kept site fun h member => ?_
      have still := free h member
      rw [types h site member] at still
      split at still
      · cases still
      · exact still
    · intro waits
      obtain ⟨h,equal,member⟩ := (queued.waits g has isOpen site).mp waits
      have still := free h member
      rw [types h site member,if_pos equal] at still
      cases still

theorem Formed.call (before : Formed events calls d) (parts : Partitioned calls d) (queued : Queued calls d)
    (allowed : c.Allowed calls d) (done : c.run d = .ok e) : Formed events (calls ++ [c]) e := by
  -- Groups that have sites are there already, so only resolving changes their types.
  have types : (∀ h type, c ≠ .resolve h type) → ∀ g site, .addSite g site ∈ calls → e.resolution? g = d.resolution? g :=
    fun plain g site member => Call.run_resolution parts.rooted allowed plain done (parts.known g site member)
  have old : (∀ g site, c ≠ .addSite g site) → ∀ g site, .addSite g site ∈ calls ++ [c] →
      .addSite g site ∈ calls ∨ e.resolution? g = none :=
    fun plain g site member => .inl ((mem_snoc_other (plain g site).symm).mp member)
  cases c with
  | group wide => exact before.quiet rfl (by cases done; rfl) (types (by simp)) (old (by simp))
  | addSite g site =>
    refine before.quiet rfl (by cases done; rfl) (types (by simp)) ?_
    intro h k member
    rcases List.mem_append.mp member with earlier | here
    · exact .inl earlier
    · cases List.mem_singleton.mp here
      cases done
      exact .inr (by simpa using allowed.2.1)
  | union a b => exact before.quiet rfl (by cases done; simp) (types (by simp)) (old (by simp))
  | same a b | resolution g => exact before.quiet rfl (by cases done; rfl) (types (by simp)) (old (by simp))
  | resolve g type =>
    rcases resolve_open_or_same done with isOpen | rfl
    · exact before.resolve parts queued allowed isOpen done
    · exact before.quiet rfl rfl (fun _ _ _ => rfl) (old (by simp))
  | push event =>
    cases done
    exact before.push event

theorem History.formed (ran : History events calls d) : Formed events calls d := by
  unfold History at ran
  induction ran with
  | refl => exact formed_start events
  | call before allowed done ih => exact ih.call (History.partitioned before) (History.queued before) allowed done

-- Groups keep the width that they were made with.
structure Measured (calls : List Call) (d : Draft) : Prop extends Levelled d where
  size : d.cells.size = (widths calls).length
  width : ∀ g, d.Has g → (widths calls)[g.id]? = some (d.isWide g)

theorem widths_snoc (silent : c.width? = none) : widths (calls ++ [c]) = widths calls := by
  simp [widths,silent]

theorem measured_start (events : Array Event) : Measured [] { events } := by
  refine ⟨⟨(partitioned_start events).rooted,?_⟩,rfl,?_⟩
  · intro g has
    simp [Has] at has
  · intro g has
    simp [Has] at has

theorem Measured.quiet (before : Measured calls d) (silent : c.width? = none) (levelled : e.Levelled)
    (size : e.cells.size = d.cells.size) (kept : Retains d e) : Measured (calls ++ [c]) e := by
  refine ⟨levelled,?_,?_⟩
  · rw [widths_snoc silent,size]
    exact before.size
  · intro g has
    have old : d.Has g := by simpa [Has,size] using has
    rw [widths_snoc silent,before.width g old,kept.width g old]

theorem Measured.group (before : Measured calls d) (wide : Bool) : Measured (calls ++ [.group wide]) (d.newGroup wide).2 := by
  have grown : widths (calls ++ [.group wide]) = widths calls ++ [wide] := by simp [widths,Call.width?]
  refine ⟨before.toLevelled.newGroup wide,?_,?_⟩
  · simp [grown,before.size]
  · intro g has
    rw [grown]
    rcases newGroup_has has with old | rfl
    · rw [List.getElem?_append_left (before.size ▸ old),before.width g old,newGroup_isWide old]
    · simp [before.size,isWide,newGroup_cell]

theorem Measured.call (before : Measured calls d) (allowed : c.Allowed calls d) (done : c.run d = .ok e) :
    Measured (calls ++ [c]) e := by
  cases c with
  | group wide =>
    cases done
    exact before.group wide
  | addSite g site =>
    cases done
    refine before.quiet rfl (before.toLevelled.addSite g site) (by simp) ⟨?_,fun h _ => addSite_isWide d g h site⟩
    intro h has
    simpa [Has] using has
  | union a b =>
    cases done
    obtain ⟨left,right,-,-,even⟩ := allowed
    rw [before.width a left,before.width b right,Option.some.injEq] at even
    exact before.quiet rfl (before.toLevelled.union left right even) (by simp) (retains_union d a b)
  | same a b | resolution g =>
    cases done
    exact before.quiet rfl before.toLevelled rfl (.refl _)
  | resolve g type =>
    rcases resolve_open_or_same done with isOpen | rfl
    · exact before.quiet rfl (before.toLevelled.resolve isOpen done) (resolve_size isOpen done) (retains_resolve done)
    · exact before.quiet rfl before.toLevelled rfl (.refl _)
  | push event =>
    cases done
    exact before.quiet rfl ⟨push_rooted before.toRooted,before.level⟩ rfl (retains_push d event)

theorem History.measured (ran : History events calls d) : Measured calls d := by
  unfold History at ran
  induction ran with
  | refl => exact measured_start events
  | call _ allowed done ih => exact ih.call allowed done

structure Filled (d : Draft) (n : Nat) (fills : List Call) (e : Draft) : Prop where
  resolves : ∀ c ∈ fills, ∃ g type, c = .resolve g type
  kept : Retains d e
  size : e.cells.size = d.cells.size
  roots : ∀ g, e.root g = d.root g
  types : ∀ g, d.Has g → e.resolution? g =
    if d.root g < n then some ((d.resolution? g).getD (defaultType (d.isWide ⟨d.root g⟩))) else d.resolution? g

theorem resolveDefault_type (rooted : d.Rooted) (done : d.resolveDefault i = .ok e) :
    (e = d ∨ d.resolution? ⟨i⟩ = none ∧ d.resolve ⟨i⟩ (defaultType (d.isWide ⟨i⟩)) = .ok e) ∧
      ∀ g, d.Has g → e.resolution? g =
        if d.root g = i then some ((d.resolution? g).getD (defaultType (d.isWide ⟨i⟩))) else d.resolution? g := by
  unfold resolveDefault at done
  dsimp only at done
  split at done
  · rename_i skipped
    cases done
    refine ⟨.inl rfl,?_⟩
    intro g has
    split
    · rename_i atRoot
      -- A root is only passed over when it has its type.
      have self : (d.cell i).root = i := atRoot ▸ rooted.root_root has
      simp only [self,ne_eq,not_true_eq_false,decide_false,Bool.false_or] at skipped
      obtain ⟨type,known⟩ := Option.isSome_iff_exists.mp skipped
      rw [resolution?,atRoot,known]
      rfl
    · rfl
  · rename_i needed
    simp only [ne_eq,Bool.or_eq_true,decide_eq_true_eq,not_or,Bool.not_eq_true,Option.isSome_eq_false_iff,
      Option.isNone_iff_eq_none,not_not] at needed
    obtain ⟨self,unknown⟩ := needed
    have root : d.root ⟨i⟩ = i := self
    have isOpen : d.resolution? ⟨i⟩ = none := by rw [resolution?,root,unknown]
    refine ⟨.inr ⟨isOpen,done⟩,?_⟩
    intro g has
    rw [resolve_resolution rooted isOpen done has,root]
    split
    · rename_i atRoot
      rw [resolution_of_root (atRoot.trans root.symm),isOpen]
      rfl
    · rfl

theorem resolveDefaults_filled (ran : History events calls d) (n : Nat) (few : n ≤ d.cells.size)
    (done : (List.range n).foldlM resolveDefault d = .ok e) :
    ∃ fills, History events (calls ++ fills) e ∧ Filled d n fills e := by
  induction n generalizing e with
  | zero =>
    cases done
    refine ⟨[],by simpa using ran,⟨by simp,.refl _,rfl,fun _ => rfl,?_⟩⟩
    intro g _
    simp
  | succ n ih =>
    rw [List.range_succ,foldlM_snoc_ok] at done
    obtain ⟨m,prior,last⟩ := done
    obtain ⟨fills,before,filled⟩ := ih (by omega) prior
    have inside : n < m.cells.size := by rw [filled.size]; omega
    obtain ⟨step,types⟩ := resolveDefault_type before.partitioned.rooted last
    -- What the earlier roots got stays, and the root whose turn it is was as it was in the beginning.
    have final : ∀ g, d.Has g → e.resolution? g =
        if d.root g < n + 1 then some ((d.resolution? g).getD (defaultType (d.isWide ⟨d.root g⟩))) else d.resolution? g := by
      intro g has
      rw [types g (filled.kept.has g has),filled.roots,filled.types g has]
      by_cases here : d.root g = n
      · have width : m.isWide ⟨n⟩ = d.isWide ⟨n⟩ := filled.kept.width ⟨n⟩ (by simpa [Has] using few)
        rw [if_pos here,if_neg (by omega),if_pos (by omega),here,width]
      · rw [if_neg here]
        refine if_congr ?_ rfl rfl
        omega
    rcases step with rfl | ⟨isOpen,resolved⟩
    · exact ⟨fills,before,⟨filled.resolves,filled.kept,filled.size,filled.roots,final⟩⟩
    · refine ⟨fills ++ [.resolve ⟨n⟩ (defaultType (m.isWide ⟨n⟩))],?_,?_,?_,?_,?_,final⟩
      · rw [← List.append_assoc]
        exact .call before inside resolved
      · intro c member
        rcases List.mem_append.mp member with earlier | here
        · exact filled.resolves c earlier
        · exact ⟨_,_,List.mem_singleton.mp here⟩
      · exact filled.kept.trans (retains_resolve resolved)
      · rw [resolve_size isOpen resolved,filled.size]
      · intro g
        rw [resolve_root isOpen resolved,filled.roots]

end Restack.Draft
