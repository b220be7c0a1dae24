import Mathlib
import Restack.Proofs.Lowering.Integers
import Restack.Proofs.Machine.Slots

namespace Restack

open Lowering
open RegisterMachine (Registers)
open StackMachine (storeAt execute? executeAll?)

-- The code of an instruction in steps that follow its parts. `Q` is asked of the move
-- with which the code ends.

variable {p : Plan} {oracle : Oracle} {registers : Registers} {part : Part} {parts : List Part} {t u : StackMachine.State}
  {Q : Option (Move StackMachine.State) → Prop} {r dest source : Nat} {type : Descriptor} {kind : Kind} {value a b : Number}
  {i : Insn} {insns rest : List Insn} {op : Arith} {wide : Bool} {ending : Ending}

def Performs (p : Plan) (oracle : Oracle) (parts : List Part) (t : StackMachine.State)
    (Q : Option (Move StackMachine.State) → Prop) : Prop :=
  ∀ block, ExpandsAll Integral p parts block → Q (executeAll? oracle block t)

namespace StackMachine

theorem executeAll_next (moved : executeAll? oracle insns t = some (.next u)) :
    executeAll? oracle (insns ++ rest) t = executeAll? oracle rest u := by
  induction insns generalizing t with
  | nil =>
    cases moved
    rfl
  | cons i insns ih =>
    simp only [List.cons_append,executeAll?] at moved ⊢
    split at moved
    · exact ih moved
    · rename_i other
      exact absurd moved (other u)

theorem executeAll_single (i : Insn) (t : State) : executeAll? oracle [i] t = execute? oracle t i := by
  unfold executeAll?
  split
  · rename_i u moved
    exact moved.symm
  · rfl

theorem execute_load {slot : Nat} (found : t.locals slot = some value) (same : value.kind = kind) :
    execute? oracle t (.load kind slot) = some (.next (t.push value)) := by
  simp [execute?,found,same]

theorem execute_store {slot : Nat} (same : value.kind = kind) :
    execute? oracle (t.push value) (.store kind slot) = some (.next { t with locals := storeAt t.locals slot value }) := by
  simp [execute?,State.pop?,State.push,same]

end StackMachine

open StackMachine

namespace Performs

theorem nil (holds : Q (some (.next t))) : Performs p oracle [] t Q := by
  intro block expanded
  cases expanded
  exact holds

theorem goes (first : ∀ here, Expands Integral p part here → ∃ u, executeAll? oracle here t = some (.next u) ∧
    Performs p oracle parts u Q) : Performs p oracle (part :: parts) t Q := by
  intro block expanded
  obtain _ | ⟨expands,others⟩ := expanded
  obtain ⟨u,moved,rest⟩ := first _ expands
  rw [executeAll_next moved]
  exact rest _ others

theorem code (moved : execute? oracle t i = some (.next u)) (rest : Performs p oracle parts u Q) :
    Performs p oracle (.code i :: parts) t Q := by
  refine goes ?_
  rintro here ⟨⟩
  exact ⟨u,(executeAll_single i t).trans moved,rest⟩

theorem codes (moved : executeAll? oracle insns t = some (.next u)) (rest : Performs p oracle parts u Q) :
    Performs p oracle (insns.map .code ++ parts) t Q := by
  induction insns generalizing t with
  | nil =>
    cases moved
    exact rest
  | cons i insns ih =>
    unfold executeAll? at moved
    split at moved
    · rename_i first
      exact code first (ih moved)
    · rename_i other
      exact absurd moved (other u)

theorem last (holds : Q (execute? oracle t i)) : Performs p oracle [.code i] t Q := by
  intro block expanded
  obtain _ | ⟨⟨⟩,⟨⟩⟩ := expanded
  simpa [executeAll_single] using holds

theorem ends {calls : List Call} (moved : execute? oracle t i = some (.ends calls ending)) (holds : Q (some (.ends calls ending))) :
    Performs p oracle (.code i :: parts) t Q := by
  intro block expanded
  obtain _ | ⟨⟨⟩,others⟩ := expanded
  simpa [executeAll?,moved] using holds

theorem read (mirrors : Mirrors p.slots registers t.locals) (got : registers.read? r kind = some value)
    (known : type.kind? = some kind) (rest : Performs p oracle parts (t.push value) Q) :
    Performs p oracle (.read r type :: parts) t Q := by
  refine goes ?_
  intro here expands
  cases expands with
  | read integral placed wanted =>
    rw [known] at wanted
    cases wanted
    have found := mirrors.reads _ _ _ _ placed got
    exact ⟨_,(executeAll_single _ t).trans (execute_load found (Registers.read_kind got)),rest⟩
  | recast integral placed wanted held holds recasts =>
    rcases integral_kind integral wanted with rfl | rfl <;> rcases integral_kind held holds with rfl | rfl <;> cases recasts

theorem look (mirrors : Mirrors p.slots registers t.locals) (got : registers.read? r .int = some value)
    (rest : Performs p oracle parts (t.push value) Q) : Performs p oracle (.look r :: parts) t Q := by
  refine goes ?_
  intro here expands
  cases expands with
  | look placed =>
    have found := mirrors.reads _ _ _ _ placed got
    exact ⟨_,(executeAll_single _ t).trans (execute_load found (Registers.read_kind got)),rest⟩

theorem width_words (known : type.kind? = some value.kind) : width type.isWide = value.words := by
  rw [← isWide_of_kind known]
  cases value <;> rfl

theorem write (enough : p.slots.ins ≤ p.slots.registers) (mirrors : Mirrors p.slots registers t.locals)
    (known : type.kind? = some value.kind)
    (rest : ∀ locals, Mirrors p.slots (registers.write r value) locals → Performs p oracle parts { t with locals } Q) :
    Performs p oracle (.write r type :: parts) (t.push value) Q := by
  refine goes ?_
  intro here expands
  cases expands with
  | write integral placed wanted inside =>
    rw [known] at wanted
    cases wanted
    rw [width_words known] at inside
    exact ⟨_,(executeAll_single _ _).trans (execute_store rfl),rest _ (mirrors.write enough placed inside)⟩

theorem openKind_words (same : value.kind = openKind wide) : Lowering.width wide = value.words := by
  cases value <;> cases wide <;> first | rfl | cases same

theorem copy (enough : p.slots.ins ≤ p.slots.registers) (mirrors : Mirrors p.slots registers t.locals)
    (got : registers.read? source (openKind wide) = some value)
    (rest : ∀ locals, Mirrors p.slots (registers.write dest value) locals → Performs p oracle parts { t with locals } Q) :
    Performs p oracle (.copy dest source wide :: parts) t Q := by
  refine goes ?_
  intro here expands
  cases expands with
  | @copy _ _ from_ there _ kind placed target known width inside =>
    -- Of each width there is one kind only.
    have same : kind = openKind wide := by
      rcases known with same | ⟨held,integral,holds⟩
      · exact same
      · rcases integral_kind integral holds with rfl | rfl <;> cases width <;> rfl
    subst same
    have holds := Registers.read_kind got
    rw [openKind_words holds] at inside
    have loaded : execute? oracle t (.load (openKind wide) from_) = some (.next (t.push value)) :=
      execute_load (mirrors.reads _ _ _ _ placed got) holds
    have stored : execute? oracle (t.push value) (.store (openKind wide) there) = _ := execute_store holds
    exact ⟨_,by simp [executeAll?,loaded,stored],rest _ (mirrors.write enough target inside)⟩

theorem bits {constant : Constant} (enough : p.slots.ins ≤ p.slots.registers) (mirrors : Mirrors p.slots registers t.locals)
    (spelled : constant? constant = some value) (fits : value.kind = openKind wide)
    (rest : ∀ locals, Mirrors p.slots (registers.write dest value) locals → Performs p oracle parts { t with locals } Q) :
    Performs p oracle (.bits dest constant wide :: parts) t Q := by
  refine goes ?_
  intro here expands
  cases expands with
  | @bits _ slot _ _ placed inside =>
    rw [openKind_words fits] at inside
    have pushed : execute? oracle t (.const constant) = some (.next (t.push value)) := by simp [execute?,spelled]
    have stored : execute? oracle (t.push value) (.store (openKind wide) slot) = _ := execute_store fits
    exact ⟨_,by simp [executeAll?,pushed,stored],rest _ (mirrors.write enough placed inside)⟩

end Performs

end Restack
