import Mathlib
import Restack.Proofs.Body.DebugProgram
import Restack.Proofs.Body.References

namespace Restack

-- The labels of a body: those of the first pass, and those that are asked for after it.

variable {item : CodeItem} {t u : LabelTable} {a b : Nat} {label : Label}

namespace LabelTable

inductive Request where
  | address (a : Nat)
  | fresh
deriving DecidableEq

def answer (t : LabelTable) : Request → Label × LabelTable
  | .address a => t.obtain a
  | .fresh => t.fresh

def serve : LabelTable → List Request → List (Request × Label) × LabelTable
  | t, [] => ([],t)
  | t, request :: rest =>
    let (label,t) := t.answer request
    let (log,t) := serve t rest
    ((request,label) :: log,t)

def freeLabels (log : List (Request × Label)) : List Label :=
  log.filterMap fun pair => if pair.1 = .fresh then some pair.2 else none

theorem freeLabels_address (a : Nat) (label : Label) (log : List (Request × Label)) :
    freeLabels ((.address a,label) :: log) = freeLabels log := by simp [freeLabels]

theorem freeLabels_fresh (label : Label) (log : List (Request × Label)) :
    freeLabels ((.fresh,label) :: log) = label :: freeLabels log := by simp [freeLabels]

-- No two addresses have one label, and no address has one of the labels that were given out free. All of them are
-- numbers below the count of those given out, from where the counter goes on.
structure Separates (t : LabelTable) (given : Nat) (free : List Label) : Prop where
  next : t.next = UInt32.ofNat given
  bound : ∀ a entry, t.entry? a = some entry → entry.label.number < given
  apart : ∀ a b one two, t.entry? a = some one → t.entry? b = some two → one.label = two.label → a = b
  old : ∀ label ∈ free, label.number < given
  unbound : ∀ label ∈ free, ∀ a, t.labelAt? a ≠ some label
  nodup : free.Nodup

variable {given : Nat} {free : List Label} {log : List (Request × Label)} {requests : List Request}

theorem obtain_answers (t : LabelTable) (a : Nat) : (t.ensure a).labelAt? a = some (t.obtain a).1 := by
  unfold labelAt?
  rw [entry_ensure]
  unfold obtain
  cases t.entry? a <;> simp [fresh]

theorem Separates.number (separates : t.Separates given free) (room : given < 2 ^ 32) : t.next.toNat = given := by
  rw [separates.next]
  exact UInt32.toNat_ofNat_of_lt room

theorem Separates.unused (separates : t.Separates given free) (a : Nat) : t.labelAt? a ≠ some ⟨given⟩ := by
  intro found
  obtain ⟨entry,known,named⟩ := Option.map_eq_some_iff.mp found
  have small := separates.bound a entry known
  rw [named] at small
  exact Nat.lt_irrefl _ small

-- A request takes one number at most.

theorem Separates.address (separates : t.Separates given free) (room : given < 2 ^ 32) (a : Nat) :
    ∃ more ≤ given + 1, (t.ensure a).Separates more free := by
  cases known : t.entry? a with
  | some entry =>
    rw [ensure_of_some known]
    exact ⟨given,Nat.le_succ _,separates⟩
  | none =>
    have cases : ∀ b entry, entry? (t.ensure a) b = some entry → t.entry? b = some entry ∨ b = a ∧ entry.label = ⟨given⟩ := by
      intro b entry found
      rw [entry_ensure,separates.number room] at found
      split at found
      · rename_i both
        cases found
        exact .inr ⟨both.1,rfl⟩
      · exact .inl found
    refine ⟨given + 1,Nat.le_refl _,?_,?_,?_,fun label member => Nat.lt_succ_of_lt (separates.old label member),?_,separates.nodup⟩
    · rw [next_ensure known,separates.next,UInt32.ofNat_add]
      rfl
    · intro b entry found
      rcases cases b entry found with old | ⟨-,label⟩
      · exact Nat.lt_succ_of_lt (separates.bound b entry old)
      · rw [label]
        exact Nat.lt_succ_self _
    · intro b c one two first second same
      rcases cases b one first with old | ⟨rfl,label⟩ <;> rcases cases c two second with old' | ⟨rfl,label'⟩
      · exact separates.apart b c one two old old' same
      · exact absurd (Option.map_eq_some_iff.mpr ⟨one,old,same.trans label'⟩) (separates.unused b)
      · exact absurd (Option.map_eq_some_iff.mpr ⟨two,old',same.symm.trans label⟩) (separates.unused c)
      · rfl
    · intro label member b found
      obtain ⟨entry,told,rfl⟩ := Option.map_eq_some_iff.mp found
      rcases cases b entry told with old | ⟨-,label⟩
      · exact separates.unbound _ member b (Option.map_eq_some_iff.mpr ⟨entry,old,rfl⟩)
      · have small := separates.old _ member
        rw [label] at small
        exact Nat.lt_irrefl _ small

theorem Separates.fresh (separates : t.Separates given free) (room : given < 2 ^ 32) :
    t.fresh.2.Separates (given + 1) (t.fresh.1 :: free) := by
  have label : t.fresh.1 = ⟨given⟩ := congrArg Label.mk (separates.number room)
  refine ⟨?_,fun a entry known => Nat.lt_succ_of_lt (separates.bound a entry known),separates.apart,?_,?_,
    List.nodup_cons.mpr ⟨?_,separates.nodup⟩⟩
  · change t.next + 1 = _
    rw [separates.next,UInt32.ofNat_add]
    rfl
  · refine List.forall_mem_cons.mpr ⟨?_,fun label member => Nat.lt_succ_of_lt (separates.old label member)⟩
    rw [label]
    exact Nat.lt_succ_self _
  · refine List.forall_mem_cons.mpr ⟨fun a => ?_,separates.unbound⟩
    rw [label]
    exact separates.unused a
  · intro member
    have small := separates.old _ member
    rw [label] at small
    exact Nat.lt_irrefl _ small

theorem serve_separates (separates : t.Separates given free) (requests : List Request) (room : given + requests.length ≤ 2 ^ 32) :
    ∃ more, (t.serve requests).2.Separates more ((freeLabels (t.serve requests).1).reverse ++ free) := by
  induction requests generalizing t given free with
  | nil => exact ⟨given,separates⟩
  | cons request rest ih =>
    rw [List.length_cons] at room
    cases request with
    | address a =>
      obtain ⟨more,few,later⟩ := separates.address (by omega) a
      exact freeLabels_address a (t.obtain a).1 _ ▸ ih later (by omega)
    | fresh =>
      have later := ih (separates.fresh (by omega)) (by omega)
      rw [← List.singleton_append,← List.append_assoc,← List.reverse_cons,← freeLabels_fresh] at later
      exact later

structure Served (t : LabelTable) (log : List (Request × Label)) (u : LabelTable) : Prop where
  kept : ∀ a label, t.labelAt? a = some label → u.labelAt? a = some label
  told : ∀ a label, (.address a,label) ∈ log → u.labelAt? a = some label

theorem Served.address (served : Served (t.ensure a) log u) : Served t ((.address a,(t.obtain a).1) :: log) u := by
  refine ⟨fun b label found => served.kept b label (labelAt_ensure found a),?_⟩
  intro b label member
  rcases List.mem_cons.mp member with same | later
  · cases same
    exact served.kept a _ (obtain_answers t a)
  · exact served.told b label later

theorem Served.fresh (served : Served t.fresh.2 log u) : Served t ((.fresh,t.fresh.1) :: log) u := by
  refine ⟨served.kept,?_⟩
  intro b label member
  rcases List.mem_cons.mp member with same | later
  · cases same
  · exact served.told b label later

theorem serve_served (t : LabelTable) (requests : List Request) : Served t (t.serve requests).1 (t.serve requests).2 := by
  induction requests generalizing t with
  | nil => exact ⟨fun _ _ found => found,fun _ _ member => nomatch member⟩
  | cons request rest ih =>
    cases request with
    | address a => exact (ih (t.ensure a)).address
    | fresh => exact (ih t.fresh.2).fresh

theorem serve_requests (t : LabelTable) (requests : List Request) : (t.serve requests).1.map Prod.fst = requests := by
  induction requests generalizing t with
  | nil => rfl
  | cons request rest ih => exact congrArg (request :: ·) (ih (t.answer request).2)

theorem serve_words (t : LabelTable) (requests : List Request) : ∀ label ∈ freeLabels (t.serve requests).1, label.number < 2 ^ 32 := by
  induction requests generalizing t with
  | nil => exact fun _ member => nomatch member
  | cons request rest ih =>
    cases request with
    | address a => exact freeLabels_address a (t.obtain a).1 _ ▸ ih (t.ensure a)
    | fresh => exact freeLabels_fresh t.fresh.1 _ ▸ List.forall_mem_cons.mpr ⟨t.next.toNat_lt,ih t.fresh.2⟩

theorem labelAt_isSome : (t.labelAt? a).isSome ↔ t.Labelled a := by
  simp [labelAt?,Labelled,Option.isSome_iff_exists]

end LabelTable

open LabelTable (Request)

-- The labels are at the addresses that the body refers to and at no others, and the marked ones are
-- where control jumps to. Whatever labels are asked for later, each address keeps the one it has,
-- no other address gets that one, and those that were given out free are at no address, as long as
-- there are numbers left. Free labels beyond that repeat.
theorem labels_given_exactly (scanned : LabelTable.scan item = .ok t) :
    (∀ a, (t.labelAt? a).isSome ↔ item.RefersTo a) ∧
    (∀ a, (∃ entry, t.entry? a = some entry ∧ entry.jumpTarget = true) ↔ item.JumpsTo a) ∧
    (∀ a b label, t.labelAt? a = some label → t.labelAt? b = some label → a = b) ∧
    ∀ requests log u, t.serve requests = (log,u) →
      log.map Prod.fst = requests ∧
      (∀ a label, t.labelAt? a = some label → u.labelAt? a = some label) ∧
      (∀ a label, (.address a,label) ∈ log → u.labelAt? a = some label) ∧
      (t.entries.length + requests.length ≤ 2 ^ 32 →
        (∀ a b label, u.labelAt? a = some label → u.labelAt? b = some label → a = b) ∧
        (∀ label, (.fresh,label) ∈ log → ∀ a, u.labelAt? a ≠ some label) ∧
        (LabelTable.freeLabels log).Nodup) ∧
      (2 ^ 32 < (LabelTable.freeLabels log).length → ¬(LabelTable.freeLabels log).Nodup) := by
  have distinct := (LabelTable.scan_laid scanned).distinct
  refine ⟨?_,fun a => (LabelTable.scan_exact scanned a).2,fun a b label one two => distinct.address one two,?_⟩
  · intro a
    rw [LabelTable.labelAt_isSome]
    exact (LabelTable.scan_exact scanned a).1
  · intro requests log u done
    have asked := t.serve_requests requests
    have served := t.serve_served requests
    have words := t.serve_words requests
    rw [done] at asked served words
    refine ⟨asked,served.kept,served.told,fun room => ?_,fun many nodup => ?_⟩
    · have start : t.Separates t.entries.length [] := ⟨distinct.next,distinct.fresh,distinct.apart,by simp,by simp,.nil⟩
      obtain ⟨given,apart⟩ := LabelTable.serve_separates start requests room
      rw [done,List.append_nil] at apart
      refine ⟨?_,?_,List.nodup_reverse.mp apart.nodup⟩
      · intro a b label one two
        obtain ⟨first,found,named⟩ := Option.map_eq_some_iff.mp one
        obtain ⟨second,there,same⟩ := Option.map_eq_some_iff.mp two
        exact apart.apart a b first second found there (named.trans same.symm)
      · intro label member
        exact apart.unbound label (List.mem_reverse.mpr (List.mem_filterMap.mpr ⟨_,member,if_pos rfl⟩))
    · have numbers : ((LabelTable.freeLabels log).map Label.number).Nodup :=
        nodup.map fun one two same => congrArg Label.mk same
      have few := LabelTable.length_le_of_nodup numbers (by simpa using words)
      rw [List.length_map] at few
      exact absurd many (Nat.not_lt_of_le few)

-- A switch on two cases before a range that ends where the table of the switch begins.
def rangeIntoTable : CodeItem where
  registers := 1
  ins := 0
  outs := 0
  debugInfo := 0
  units := #[0x002b,0x0008,0x0000,0x0012,0x000e,0x000d,0x000e,0x000e,
    0x0100,0x0002,0x0000,0x0000,0x0003,0x0000,0x0004,0x0000,0x000e]
  tries := [⟨3,5,1⟩]
  handlers := [(1,⟨[],some 5⟩)]

-- The range ends at address 16, which has a label but no mark. Of the free labels one is given out
-- before address 6 asks for one, and one after it.
theorem labels_given_exactly_rangeIntoTable :
    ∃ t u, LabelTable.scan rangeIntoTable = .ok t ∧
      rangeIntoTable.RefersTo 8 ∧ rangeIntoTable.RefersTo 16 ∧ ¬rangeIntoTable.RefersTo 6 ∧
      rangeIntoTable.JumpsTo 4 ∧ rangeIntoTable.JumpsTo 5 ∧ ¬rangeIntoTable.JumpsTo 16 ∧
      t.serve [.fresh,.address 6,.fresh,.address 3] =
        ([(.fresh,⟨7⟩),(.address 6,⟨8⟩),(.fresh,⟨9⟩),(.address 3,⟨2⟩)],u) ∧
      (∀ a, u.labelAt? a ≠ some ⟨7⟩) ∧ (∀ a, u.labelAt? a ≠ some ⟨9⟩) ∧ u.labelAt? 16 = some ⟨4⟩ := by
  obtain ⟨t,u,scanned,few,table,last,middle,case,handler,plain,served,named⟩ : ∃ t u, LabelTable.scan rangeIntoTable = .ok t ∧ t.entries.length + 4 ≤ 2 ^ 32 ∧
      (t.labelAt? 8).isSome = true ∧ (t.labelAt? 16).isSome = true ∧ (t.labelAt? 6).isSome = false ∧
      (∃ entry, t.entry? 4 = some entry ∧ entry.jumpTarget = true) ∧ (∃ entry, t.entry? 5 = some entry ∧ entry.jumpTarget = true) ∧
      (∃ entry, t.entry? 16 = some entry ∧ entry.jumpTarget = false) ∧
      t.serve [.fresh,.address 6,.fresh,.address 3] =
        ([(.fresh,⟨7⟩),(.address 6,⟨8⟩),(.fresh,⟨9⟩),(.address 3,⟨2⟩)],u) ∧
      t.labelAt? 16 = some ⟨4⟩ :=
    ⟨_,_,rfl,by decide,rfl,rfl,rfl,⟨_,rfl,rfl⟩,⟨_,rfl,rfl⟩,⟨_,rfl,rfl⟩,rfl,rfl⟩
  obtain ⟨labelled,marked,-,serves⟩ := labels_given_exactly scanned
  obtain ⟨-,kept,-,separate,-⟩ := serves _ _ _ served
  obtain ⟨-,unbound,-⟩ := separate few
  refine ⟨t,u,scanned,(labelled 8).mp table,(labelled 16).mp last,?_,(marked 4).mp case,(marked 5).mp handler,?_,served,
    unbound _ (by simp),unbound _ (by simp),kept 16 _ named⟩
  · rw [← labelled,middle]
    simp
  · obtain ⟨entry,found,mark⟩ := plain
    rw [← marked]
    rintro ⟨other,again,wrong⟩
    rw [found] at again
    cases again
    rw [mark] at wrong
    cases wrong

end Restack
