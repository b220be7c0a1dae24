import Mathlib
import Restack.Proofs.Draft.Forest
import Restack.Proofs.Draft.Retyped

namespace Restack

-- A draft as its callers see it. Whatever was called on it, its answers, its types and its events follow from the
-- calls alone: from which groups were joined, and what was recorded for them.

-- The bits of a constant, if it is a number. The null reference has those of zero.
def Constant.bits? : Constant → Option ((width : Nat) × BitVec width)
  | .int value => some ⟨32,value.toBitVec⟩
  | .long value => some ⟨64,value.toBitVec⟩
  | .float bits => some ⟨32,bits.toBitVec⟩
  | .double bits => some ⟨64,bits.toBitVec⟩
  | .null => some ⟨32,0⟩
  | _ => none

theorem Constant.retype_bits {value result : Constant} {kind : Kind} (done : value.retype? kind = some result) :
    ∃ bits, value.bits? = some bits ∧ result.bits? = some bits := by
  cases value <;> cases kind <;> simp only [retype?,reduceCtorEq] at done
  case int.reference value =>
    split at done
    · rename_i zero
      cases done
      subst zero
      exact ⟨_,rfl,rfl⟩
    · cases done
  all_goals
    cases done
    exact ⟨_,rfl,rfl⟩

theorem Insn.retype_const {value : Constant} {type : Descriptor} {j : Insn} (done : (Insn.const value).retype type = .ok j) :
    ∃ result bits, j = .const result ∧ value.bits? = some bits ∧ result.bits? = some bits := by
  unfold retype at done
  split at done
  · simp at done
  · dsimp only at done
    split at done
    · rename_i result retyped
      cases done
      obtain ⟨bits,before,after⟩ := Constant.retype_bits retyped
      exact ⟨result,bits,rfl,before,after⟩
    · simp at done

namespace Draft

variable {events : Array Event} {calls later : List Call} {d e : Draft} {a b g h : Group} {type : Descriptor} {site : Nat}

-- An instruction takes the form of a type, once. A constant keeps its bits.
def Retypes (type : Descriptor) (before after : Option Event) : Prop :=
  ∃ i j, before = some (.insn i) ∧ i.retype type = .ok j ∧ after = some (.insn j) ∧
    ∀ value, i = .const value → ∃ result bits, j = .const result ∧ value.bits? = some bits ∧ result.bits? = some bits

theorem retypes_of_retype {before after : Option Event} {i j : Insn} (found : before = some (.insn i))
    (retyped : i.retype type = .ok j) (final : after = some (.insn j)) : Retypes type before after := by
  refine ⟨i,j,found,retyped,final,?_⟩
  rintro value rfl
  exact Insn.retype_const retyped

structure Resolved (calls : List Call) (d : Draft) (g : Group) (type : Descriptor) (e : Draft) : Prop where
  sites : ∀ site, Recorded calls g site → Retypes type d.events[site]? e.events[site]?
  others : ∀ site, ¬ Recorded calls g site → e.events[site]? = d.events[site]?
  types : ∀ h, Connected calls g h → e.resolution? h = some type
  apart : ∀ h, d.Has h → ¬ Connected calls g h → e.resolution? h = d.resolution? h

structure Completed (events : Array Event) (calls : List Call) (d e : Draft) : Prop where
  history : ∃ fills, (∀ c ∈ fills, ∃ g type, c = .resolve g type) ∧ History events (calls ++ fills) e
  types : ∀ g wide, (widths calls)[g.id]? = some wide → e.resolution? g = some ((d.resolution? g).getD (defaultType wide))
  groups : e.cells.size = (widths calls).length
  idle : ∀ cell ∈ e.cells, cell.sites = []

theorem History.recorded_iff (ran : History events calls d) (has : d.Has g) :
    Recorded calls g site ↔ ∃ h, d.root h = d.root g ∧ .addSite h site ∈ calls := by
  have parts := ran.partitioned
  refine exists_congr fun h => and_congr_left fun member => ?_
  rw [parts.connected_iff has (parts.known h site member)]
  exact eq_comm

theorem History.resolved (ran : History events calls d) (has : d.Has g) (isOpen : d.resolution? g = none)
    (done : d.resolve g type = .ok e) : Resolved calls d g type e := by
  have parts := ran.partitioned
  have queued := ran.queued
  have waits : ∀ site, Recorded calls g site ↔ site ∈ d.waiting g := fun site => by
    rw [ran.recorded_iff has,queued.waits g has isOpen]
  refine ⟨?_,?_,?_,?_⟩
  · intro site recorded
    obtain ⟨i,j,found,retyped,final⟩ := resolve_waiting isOpen done (queued.distinct g has isOpen) ((waits site).mp recorded)
    exact retypes_of_retype found retyped final
  · intro site other
    exact resolve_elsewhere isOpen done fun member => other ((waits site).mpr member)
  · intro h connected
    have there : d.Has h := (parts.has_of_connected connected).mp has
    rw [resolve_resolution parts.rooted isOpen done there,if_pos (parts.root_of_connected connected).symm]
  · intro h there apart
    rw [resolve_resolution parts.rooted isOpen done there,if_neg]
    intro same
    exact apart (parts.same g h has there same.symm)

theorem Leads.keeps_type (led : Leads calls d later e) (ran : History events calls d) (has : d.Has g)
    (known : d.resolution? g = some type) : e.Has g ∧ e.resolution? g = some type := by
  induction led with
  | refl => exact ⟨has,known⟩
  | call before allowed done ih =>
    obtain ⟨there,still⟩ := ih
    have rooted := (History.partitioned (Leads.trans ran before)).rooted
    exact ⟨Call.run_has done there,Call.run_type rooted allowed done there still⟩

theorem History.completed (ran : History events calls d) (done : d.resolveDefaults = .ok e) : Completed events calls d e := by
  have measured := ran.measured
  obtain ⟨fills,after,filled⟩ := resolveDefaults_filled ran d.cells.size (Nat.le_refl _) done
  have types : ∀ g, d.Has g → e.resolution? g = some ((d.resolution? g).getD (defaultType (d.isWide g))) := by
    intro g has
    rw [filled.types g has,if_pos (measured.root_bound has),measured.level g has]
  refine ⟨⟨fills,filled.resolves,after⟩,?_,filled.size.trans measured.size,?_⟩
  · intro g wide made
    have has : d.Has g := by
      unfold Has
      rw [measured.size]
      exact (List.getElem?_eq_some_iff.mp made).1
    rw [measured.width g has,Option.some.injEq] at made
    rw [types g has,made]
  · intro cell member
    obtain ⟨i,inside,rfl⟩ := Array.mem_iff_getElem.mp member
    have here : e.cell i = e.cells[i] := by simp [Draft.cell,inside]
    rw [← here]
    apply after.queued.idle i inside
    -- A cell that is its own root has a type by now.
    by_cases self : (e.cell i).root = i
    · have known := types ⟨i⟩ (Nat.lt_of_lt_of_eq inside filled.size)
      rw [resolution?,show e.root ⟨i⟩ = i from self] at known
      exact .inr (by simp [known])
    · exact .inl self

theorem groups_follow_history (ran : History events calls d) :
    -- Groups are one just when joining connects them, and joining gives a group that is connected with both.
    (∀ a b, d.Has a → d.Has b → (d.same a b = true ↔ Connected calls a b)) ∧
    (∀ a b, d.Has a → Connected calls a (d.union a b).1 ∧ Connected (calls ++ [.union a b]) b (d.union a b).1) ∧
    -- Links, however shortened, can be followed to their end, which is the root.
    (∃ parent, Forest calls parent) ∧
    (∀ parent, Forest calls parent → ∀ g, d.Has g → ∀ r, Climbs parent g.id r ↔ d.root g = r) ∧
    -- The loops over the vector of links come to their ends in every call, and from then on too: the one
    -- that climbs finds the root, and what the one that finds it writes shortens links.
    (∃ links, linksOf calls = Part.some links ∧ links.size = d.cells.size ∧ Forest calls (parentOf links) ∧
      ∀ g, d.Has g → climb links g.id = Part.some (d.root g) ∧
        ∃ short, find links g = Part.some (d.root g,short) ∧ Shortens (parentOf links) (parentOf short) ∧
          Forest calls (parentOf short)) ∧
    -- The events, from the first call on.
    (∀ g site type, Recorded calls g site → d.resolution? g = some type →
      Retypes type (written events calls)[site]? d.events[site]?) ∧
    (∀ site, (∀ g, Recorded calls g site → d.resolution? g = none) → d.events[site]? = (written events calls)[site]?) ∧
    -- Resolving, once, for good.
    (∀ g type e, d.Has g → d.resolution? g = none → d.resolve g type = .ok e → Resolved calls d g type e) ∧
    (∀ g type, (d.resolution? g).isSome → d.resolve g type = .ok d) ∧
    (∀ later e, Leads calls d later e → ∀ g type, d.Has g → d.resolution? g = some type → e.resolution? g = some type) ∧
    ∀ e, d.resolveDefaults = .ok e → Completed events calls d e := by
  have parts := ran.partitioned
  have formed := ran.formed
  obtain ⟨links,led,mirrors⟩ := ran.mirrored
  refine ⟨?_,?_,⟨_,mirrors.forest⟩,?_,⟨links,led,mirrors.size,mirrors.forest,?_⟩,?_,?_,?_,?_,?_,?_⟩
  · intro a b left right
    rw [parts.connected_iff left right]
    simp [same]
  · intro a b left
    rw [union_id]
    have root := parts.same a ⟨d.root a⟩ left (parts.rooted.has_root left) (parts.rooted.root_root left).symm
    have joined : Connected (calls ++ [.union a b]) a b := .rel a b (List.mem_append_right _ (List.mem_singleton_self _))
    exact ⟨root,.trans _ _ _ (.symm _ _ joined) (root.snoc _)⟩
  · intro parent forest g has r
    have climbs := (forest.linked ran).climbs g has
    refine ⟨fun other => climbs.unique other,?_⟩
    rintro rfl
    exact climbs
  · intro g has
    obtain ⟨climbs,ends⟩ := mirrors.climbs ran has
    obtain ⟨short,found,shortens,after⟩ := mirrors.find ran has
    exact ⟨climb_of_climbs climbs ends,short,found,shortens,after.forest⟩
  · rintro g site type ⟨h,connected,member⟩ known
    rw [resolution_of_root (parts.root_of_connected connected)] at known
    obtain ⟨i,j,found,retyped,final⟩ := formed.retyped h site type member known
    exact retypes_of_retype found retyped final
  · intro site free
    exact formed.kept site fun g member => free g ⟨g,.refl calls g,member⟩
  · intro g type e has isOpen done
    exact ran.resolved has isOpen done
  · intro g type known
    exact resolve_of_resolved known
  · intro later e led g type has known
    exact (led.keeps_type ran has known).2
  · intro e done
    exact ran.completed done

-- A constant and a store wait for two groups, which are joined and become a reference; a third group stays open.
def joinedCalls : List Call :=
  [.push (.insn (.const (.int 0))),.group false,.group false,.group true,.addSite ⟨0⟩ 0,.addSite ⟨1⟩ 1,
    .push (.insn (.store .int 0)),.union ⟨0⟩ ⟨1⟩,.same ⟨1⟩ ⟨2⟩,.resolve ⟨1⟩ (.object "A")]

theorem groups_follow_history_joinedCalls : ∃ d e, History #[] joinedCalls d ∧ Connected joinedCalls ⟨0⟩ ⟨1⟩ ∧
    ¬ Connected joinedCalls ⟨1⟩ ⟨2⟩ ∧ (∃ links, linksOf joinedCalls = Part.some links ∧ climb links 1 = Part.some 0) ∧
    Retypes (.object "A") (some (.insn (.const (.int 0)))) d.events[0]? ∧
    d.resolveDefaults = .ok e ∧ Completed #[] joinedCalls d e ∧ e.resolution? ⟨2⟩ = some .long := by
  have made := (Leads.refl : Leads [] {} [] {})
    |>.call (c := .push (.insn (.const (.int 0)))) trivial rfl
    |>.call (c := .group false) trivial rfl
    |>.call (c := .group false) trivial rfl
    |>.call (c := .group true) trivial rfl
  have recorded : Leads [] {} _ ⟨#[⟨0,false,[0],none⟩,⟨1,false,[1],none⟩,⟨2,true,[],none⟩],
      #[.insn (.const (.int 0)),.insn (.store .int 0)]⟩ := made
    |>.call (c := .addSite ⟨0⟩ 0) ⟨by decide,rfl,by simp⟩ rfl
    |>.call (c := .addSite ⟨1⟩ 1) ⟨by decide,rfl,by simp⟩ rfl
    |>.call (c := .push (.insn (.store .int 0))) trivial rfl
  have joined : Leads [] {} _ ⟨#[⟨0,false,[0,1],none⟩,⟨0,false,[],none⟩,⟨2,true,[],none⟩],
      #[.insn (.const (.int 0)),.insn (.store .int 0)]⟩ :=
    recorded.call (c := .union ⟨0⟩ ⟨1⟩) ⟨by decide,by decide,rfl,rfl,rfl⟩ (by simp [Call.run,union,root,cell])
  have ran : History #[] joinedCalls _ := joined
    |>.call (c := .same ⟨1⟩ ⟨2⟩) ⟨by decide,by decide⟩ rfl
    |>.call (c := .resolve ⟨1⟩ (.object "A")) (show Has _ _ by decide) rfl
  obtain ⟨connected,-,-,-,⟨links,led,-,-,found⟩,retyped,-,-,-,-,completed⟩ := groups_follow_history ran
  have together := (connected ⟨0⟩ ⟨1⟩ (by decide) (by decide)).mp rfl
  have apart : ¬ Connected joinedCalls ⟨1⟩ ⟨2⟩ := (connected ⟨1⟩ ⟨2⟩ (by decide) (by decide)).not.mp (by decide)
  have completed := completed _ rfl
  have climbed := (found ⟨1⟩ (by decide)).1
  exact ⟨_,_,ran,together,apart,⟨links,led,climbed⟩,
    retyped ⟨1⟩ 0 _ ⟨⟨0⟩,.symm _ _ together,by simp [joinedCalls]⟩ rfl,rfl,completed,completed.types ⟨2⟩ true rfl⟩

end Draft

end Restack
