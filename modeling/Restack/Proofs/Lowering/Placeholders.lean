import Mathlib
import Restack.Proofs.Draft.Sites
import Restack.Proofs.Lowering.Run

namespace Restack.Lowering

open Draft (Settles)

-- What becomes of the placeholders. Each one waits for the type of its group and
-- is retyped once, when the group gets it. A jump is emitted after control has
-- arrived at its target; if that gave its group a type, the jump comes too late.

-- An instruction that was emitted for a group of open values: its place among the events, its
-- form when it was emitted, and the type that the group had by then.
structure Placeholder where
  position : Nat
  group : Group
  insn : Insn
  known : Option Descriptor

variable {P : Descriptor → Prop} {p : Plan} {s t : State} {d e : Draft} {log : List Placeholder} {a b g : Group}
  {type : Descriptor} {block : List Insn}

def Placeholder.IsJump (ph : Placeholder) : Prop := ∃ condition target, ph.insn = .jump condition target

-- The form of a placeholder at any time.
structure Formed (d : Draft) (ph : Placeholder) : Prop where
  has : d.Has ph.group
  plain : ph.insn.untyped = ph.insn
  early : ph.known ≠ none → ph.IsJump
  waits : d.resolution? ph.group = none → ph.known = none ∧ d.events[ph.position]? = some (.insn ph.insn)
  retyped : ∀ type, d.resolution? ph.group = some type → ph.known = none →
    ∃ final, ph.insn.retype type = .ok final ∧ d.events[ph.position]? = some (.insn final)
  left : ∀ type, d.resolution? ph.group = some type → ph.known ≠ none →
    ph.known = some type ∧ d.events[ph.position]? = some (.insn ph.insn)

structure Patched (d : Draft) (log : List Placeholder) : Prop where
  rooted : d.Rooted
  formed : ∀ ph ∈ log, Formed d ph
  inside : ∀ ph ∈ log, ph.position < d.events.size
  distinct : (log.map Placeholder.position).Nodup
  -- An open group knows its placeholders, each once.
  once : ∀ g, d.Has g → d.resolution? g = none → (d.waiting g).Nodup
  sites : ∀ g, d.Has g → d.resolution? g = none →
    ∀ n, n ∈ d.waiting g ↔ ∃ ph ∈ log, ph.position = n ∧ d.root ph.group = d.root g

theorem Patched.same_position (patched : Patched d log) {one two : Placeholder} (first : one ∈ log) (second : two ∈ log)
    (same : one.position = two.position) : one = two :=
  List.inj_on_of_nodup_map patched.distinct first second same

def Logged (log : List Placeholder) (g : Group) (n : Nat) : Prop := ∃ ph ∈ log, ph.position = n ∧ ph.group = g

theorem logged_iff (d : Draft) (log : List Placeholder) (root n : Nat) :
    (∃ h, d.root h = root ∧ Logged log h n) ↔ ∃ ph ∈ log, ph.position = n ∧ d.root ph.group = root := by
  constructor
  · rintro ⟨_,same,ph,member,place,rfl⟩
    exact ⟨ph,member,place,same⟩
  · rintro ⟨ph,member,place,same⟩
    exact ⟨ph.group,same,ph,member,place,rfl⟩

theorem Patched.filed (patched : Patched d log) : d.Filed (Logged log) where
  known := by
    rintro g n ⟨ph,member,-,rfl⟩
    exact (patched.formed ph member).has
  once := by
    rintro g h n ⟨one,first,here,rfl⟩ ⟨two,second,there,rfl⟩
    rw [patched.same_position first second (here.trans there.symm)]
  waits := fun g has isOpen n => (patched.sites g has isOpen n).trans (logged_iff d log (d.root g) n).symm
  distinct := patched.once

theorem patched_of_filed (rooted : d.Rooted) (formed : ∀ ph ∈ log, Formed d ph) (inside : ∀ ph ∈ log, ph.position < d.events.size)
    (distinct : (log.map Placeholder.position).Nodup) (filed : d.Filed (Logged log)) : Patched d log where
  rooted := rooted
  formed := formed
  inside := inside
  distinct := distinct
  once := filed.distinct
  sites := fun g has isOpen n => (filed.waits g has isOpen n).trans (logged_iff d log (d.root g) n)

theorem Formed.kept {ph : Placeholder} (formed : Formed d ph) (has : e.Has ph.group)
    (knows : e.resolution? ph.group = d.resolution? ph.group) (event : e.events[ph.position]? = d.events[ph.position]?) :
    Formed e ph := by
  refine ⟨has,formed.plain,formed.early,?_,?_,?_⟩
  · rw [knows,event]
    exact formed.waits
  · rw [knows,event]
    exact formed.retyped
  · rw [knows,event]
    exact formed.left

theorem Formed.push {ph : Placeholder} (formed : Formed d ph) (inside : ph.position < d.events.size) (event : Event) :
    Formed (d.push event) ph := by
  refine formed.kept formed.has rfl ?_
  rw [Draft.push_events,Array.getElem?_push,if_neg (Nat.ne_of_lt inside)]

theorem Patched.push (patched : Patched d log) (event : Event) : Patched (d.push event) log where
  rooted := Draft.push_rooted patched.rooted
  formed := fun ph member => (patched.formed ph member).push (patched.inside ph member) event
  inside := by
    intro ph member
    have inside := patched.inside ph member
    simp only [Draft.push_events,Array.size_push]
    omega
  distinct := patched.distinct
  once := patched.once
  sites := patched.sites

theorem Patched.newGroup (patched : Patched d log) (wide : Bool) : Patched (d.newGroup wide).2 log := by
  have rooted := patched.rooted
  refine patched_of_filed (Draft.newGroup_rooted rooted) ?_ patched.inside patched.distinct (patched.filed.newGroup rooted wide)
  intro ph member
  have formed := patched.formed ph member
  have same : (d.newGroup wide).2.resolution? ph.group = d.resolution? ph.group := Draft.newGroup_resolution rooted formed.has
  exact formed.kept (Draft.has_newGroup formed.has) same rfl

-- A placeholder at the end. Its group is open, or it is a jump.

theorem formed_new (has : d.Has g) {i : Insn} (plain : i.untyped = i)
    (timely : d.resolution? g = none ∨ ∃ condition target, i = .jump condition target) :
    Formed (d.pushSite g i) ⟨d.events.size,g,i,d.resolution? g⟩ := by
  have here : (d.pushSite g i).events[d.events.size]? = some (.insn i) := by simp [Draft.pushSite]
  have knows : (d.pushSite g i).resolution? g = d.resolution? g := by simp [Draft.pushSite]
  refine ⟨by simpa [Draft.pushSite] using has,plain,?_,?_,?_,?_⟩
  · intro late
    exact timely.resolve_left late
  · intro isOpen
    exact ⟨knows.symm.trans isOpen,here⟩
  · intro type told isOpen
    rw [knows,show d.resolution? g = none from isOpen] at told
    cases told
  · intro type told late
    exact ⟨knows.symm.trans told,here⟩

theorem Patched.site (patched : Patched d log) (has : d.Has g) {i : Insn} (plain : i.untyped = i)
    (timely : d.resolution? g = none ∨ ∃ condition target, i = .jump condition target) :
    Patched (d.pushSite g i) (log ++ [⟨d.events.size,g,i,d.resolution? g⟩]) := by
  have rooted := patched.rooted
  have fresh : ∀ ph ∈ log, ph.position ≠ d.events.size := fun ph member => Nat.ne_of_lt (patched.inside ph member)
  have filed : (d.addSite g d.events.size).Filed (Logged (log ++ [⟨d.events.size,g,i,d.resolution? g⟩])) := by
    refine (patched.filed.addSite rooted has ?_).congr ?_
    · rintro h ⟨ph,member,place,-⟩
      exact fresh ph member place
    · intro h n
      simp only [Logged,List.mem_append,List.mem_singleton,or_and_right,exists_or,exists_eq_left]
      exact or_congr_right ⟨fun here => ⟨here.2.symm,here.1.symm⟩,fun here => ⟨here.2.symm,here.1.symm⟩⟩
  refine patched_of_filed (Draft.push_rooted (Draft.addSite_rooted rooted)) ?_ ?_ ?_ (filed.events _)
  · intro ph member
    rcases List.mem_append.mp member with old | new
    · have formed := patched.formed ph old
      exact formed.kept (by simpa [Draft.pushSite] using formed.has) (by simp [Draft.pushSite])
        (by simp [Draft.pushSite,Array.getElem?_push,fresh ph old])
    · obtain rfl := List.mem_singleton.mp new
      exact formed_new has plain timely
  · intro ph member
    simp only [Draft.pushSite,Draft.push_events,Draft.addSite_events,Array.size_push]
    rcases List.mem_append.mp member with old | new
    · exact Nat.lt_succ_of_lt (patched.inside ph old)
    · obtain rfl := List.mem_singleton.mp new
      exact Nat.lt_succ_self _
  · rw [List.map_append,List.nodup_append]
    refine ⟨patched.distinct,by simp,?_⟩
    intro n old m new
    obtain ⟨ph,member,rfl⟩ := List.mem_map.mp old
    simp only [List.map_cons,List.map_nil,List.mem_singleton] at new
    exact new ▸ fresh ph member

theorem Patched.union (patched : Patched d log) (left : d.Has a) (right : d.Has b) (openLeft : d.resolution? a = none)
    (openRight : d.resolution? b = none) : Patched (d.union a b).2 log := by
  have rooted := patched.rooted
  refine patched_of_filed (Draft.union_rooted rooted left) ?_ (by simpa using patched.inside) patched.distinct
    (patched.filed.union rooted left right openLeft openRight)
  intro ph member
  have formed := patched.formed ph member
  have same := Draft.union_resolution rooted left openLeft openRight formed.has
  exact formed.kept ((Draft.union_has d a b _).mpr formed.has) same (by simp)

theorem Patched.resolve (patched : Patched d log) (has : d.Has g) (isOpen : d.resolution? g = none)
    (done : d.resolve g type = .ok e) : Patched e log := by
  have rooted := patched.rooted
  refine patched_of_filed (Draft.resolve_rooted rooted isOpen done) ?_ ?_ patched.distinct (patched.filed.resolve rooted isOpen done)
  · intro ph member
    have formed := patched.formed ph member
    have there : e.Has ph.group := (Draft.resolve_has isOpen done).mpr formed.has
    have said := Draft.resolve_resolution rooted isOpen done formed.has
    by_cases mine : d.root ph.group = d.root g
    · rw [if_pos mine] at said
      obtain ⟨early,event⟩ := formed.waits ((Draft.resolution_of_root mine).trans isOpen)
      have waits : ph.position ∈ d.waiting g := (patched.sites g has isOpen ph.position).mpr ⟨ph,member,rfl,mine⟩
      obtain ⟨i,j,found,retyped,final⟩ := Draft.resolve_waiting isOpen done (patched.once g has isOpen) waits
      rw [event] at found
      cases found
      refine ⟨there,formed.plain,formed.early,?_,?_,?_⟩
      · intro free
        rw [said] at free
        cases free
      · intro other told _
        rw [said] at told
        cases told
        exact ⟨j,retyped,final⟩
      · intro other told late
        exact absurd early late
    · rw [if_neg mine] at said
      have away := patched.filed.elsewhere has isOpen ⟨ph,member,rfl,rfl⟩ mine
      exact formed.kept there said (Draft.resolve_elsewhere isOpen done away)
  · intro ph member
    rw [Draft.resolve_events_size isOpen done]
    exact patched.inside ph member

theorem Patched.settles (patched : Patched d log) (path : Settles P d e) : Patched e log := by
  induction path with
  | refl => exact patched
  | unite _ left right openLeft openRight ih => exact ih.union left right openLeft openRight
  | resolve _ has isOpen _ done ih => exact ih.resolve has isOpen done

theorem patched_empty : Patched {} [] := by
  refine ⟨Draft.rooted_empty,by simp,by simp,by simp,?_,?_⟩
  · intro g has
    simp [Draft.Has] at has
  · intro g has
    simp [Draft.Has] at has

def Tended (d : Draft) : Prop := ∃ log, Patched d log

theorem Tended.evolves (int : P .int) (valid : s.Valid P p) (tended : Tended s.draft) (path : Evolves P s block t) :
    Tended t.draft := by
  induction path with
  | refl => exact tended
  | emit i _ ih =>
    obtain ⟨log,patched⟩ := ih
    exact ⟨log,patched.push _⟩
  | site _ has plain timely ih =>
    obtain ⟨log,patched⟩ := ih
    exact ⟨_,patched.site has plain timely⟩
  | group wide _ ih =>
    obtain ⟨log,patched⟩ := ih
    exact ⟨log,patched.newGroup wide⟩
  | settle _ settled ih =>
    obtain ⟨log,patched⟩ := ih
    exact ⟨log,patched.settles settled⟩
  | write _ _ done ih =>
    obtain ⟨f,-,rfl⟩ := setRegister_frame done
    exact ih
  | arrive prior done ih =>
    obtain ⟨log,patched⟩ := ih
    obtain ⟨joined,d,rfl,arrived⟩ := arrive_arrived int (prior.valid int valid) done
    exact ⟨log,patched.settles arrived.settles⟩
  | hold _ _ ih => exact ih

end Restack.Lowering
