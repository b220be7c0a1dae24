import Mathlib
import Restack.Register.Instruction

namespace Restack

-- Ints and longs with their arithmetic, and machines that run code with labels. What a
-- machine does at one place of its code is a parameter, so that register code and
-- stack code run by the same rules.

inductive Number where
  | int (bits : BitVec 32)
  | long (bits : BitVec 64)
deriving DecidableEq

namespace Number

def kind : Number → Kind
  | .int _ => .int
  | .long _ => .long

def words : Number → Nat
  | .int _ => 1
  | .long _ => 2

end Number

def OfTypes (values : List Number) (types : List Descriptor) : Prop :=
  values.map (fun value => some value.kind) = types.map Descriptor.kind?

instance (values : List Number) (types : List Descriptor) : Decidable (OfTypes values types) :=
  inferInstanceAs (Decidable (_ = _))

inductive Ending where
  | returned (value : Option Number)
  | divisionByZero
deriving DecidableEq

namespace Arith

-- The distance of a shift counts modulo the width.
def shift? {n : Nat} (op : Arith) (a : BitVec n) (distance : BitVec 32) : Option (BitVec n) :=
  match op with
  | .shl => some (a <<< (distance.toNat % n))
  | .shr => some (a.sshiftRight (distance.toNat % n))
  | .ushr => some (a >>> (distance.toNat % n))
  | _ => none

-- Division cuts off towards zero, and the remainder has the sign of the dividend.
def combine? {n : Nat} (op : Arith) (a b : BitVec n) : Option (Except Ending (BitVec n)) :=
  match op with
  | .add => some (.ok (a + b))
  | .sub => some (.ok (a - b))
  | .mul => some (.ok (a * b))
  | .div => some (if b = 0 then .error .divisionByZero else .ok (a.sdiv b))
  | .rem => some (if b = 0 then .error .divisionByZero else .ok (a.srem b))
  | .and => some (.ok (a &&& b))
  | .or => some (.ok (a ||| b))
  | .xor => some (.ok (a ^^^ b))
  | _ => none

-- Nothing comes out if the operands do not fit the operation.
def compute? (op : Arith) : Number → Number → Option (Except Ending Number)
  | .int a, .int b =>
    match op.shift? a b with
    | some c => some (.ok (.int c))
    | none => (op.combine? a b).map (Except.map .int)
  | .long a, .int b => (op.shift? a b).map fun c => .ok (.long c)
  | .long a, .long b => (op.combine? a b).map (Except.map .long)
  | .int _, .long _ => none

end Arith

def Narrowing.apply (width : Narrowing) (a : BitVec 32) : BitVec 32 :=
  match width with
  | .byte => (a.setWidth 8).signExtend 32
  | .char => (a.setWidth 16).setWidth 32
  | .short => (a.setWidth 16).signExtend 32

def UnaryOp.compute? : UnaryOp → Number → Option Number
  | .negInt, .int a => some (.int (-a))
  | .notInt, .int a => some (.int (~~~a))
  | .negLong, .long a => some (.long (-a))
  | .notLong, .long a => some (.long (~~~a))
  | .intToLong, .int a => some (.long (a.signExtend 64))
  | .longToInt, .long a => some (.int (a.setWidth 32))
  | .intToByte, .int a => some (.int (Narrowing.byte.apply a))
  | .intToChar, .int a => some (.int (Narrowing.char.apply a))
  | .intToShort, .int a => some (.int (Narrowing.short.apply a))
  | _, _ => none

def longOrder (a b : BitVec 64) : BitVec 32 :=
  if a.toInt < b.toInt then -1 else if a = b then 0 else 1

def TestOp.holds (op : TestOp) (a b : BitVec 32) : Bool :=
  match op with
  | .equal => a = b
  | .notEqual => a ≠ b
  | .less => a.toInt < b.toInt
  | .greaterEqual => b.toInt ≤ a.toInt
  | .greater => b.toInt < a.toInt
  | .lessEqual => a.toInt ≤ b.toInt

def Comparison.holds (c : Comparison) (a b : BitVec 32) : Bool :=
  match c with
  | .eq => a = b
  | .ne => a ≠ b
  | .lt => a.toInt < b.toInt
  | .ge => b.toInt ≤ a.toInt
  | .gt => b.toInt < a.toInt
  | .le => a.toInt ≤ b.toInt

theorem comparison_holds (op : TestOp) (a b : BitVec 32) : op.comparison.holds a b = op.holds a b := by
  cases op <;> rfl

-- The case that a switch takes. Keys are numbers: from the first one on they go past
-- the largest int rather than around.

def tableCase (value first : BitVec 32) (targets : List Label) (fallback : Label) : Label :=
  if value.toInt < first.toInt then fallback
  else (targets[(value.toInt - first.toInt).toNat]?).getD fallback

def lookupCase (value : BitVec 32) (pairs : List (Int32 × Label)) (fallback : Label) : Label :=
  ((pairs.find? fun pair => pair.1.toBitVec = value).map Prod.snd).getD fallback

theorem tableCase_mem (x first : BitVec 32) (targets : List Label) (next : Label) :
    tableCase x first targets next ∈ targets ++ [next] := by
  unfold tableCase
  split
  · simp
  · cases found : targets[(x.toInt - first.toInt).toNat]? with
    | none => simp
    | some label => exact List.mem_append_left _ (List.mem_of_getElem? found)

theorem lookupCase_mem (x : BitVec 32) (pairs : List (Int32 × Label)) (next : Label) :
    lookupCase x pairs next ∈ pairs.map Prod.snd ++ [next] := by
  unfold lookupCase
  cases found : pairs.find? fun pair => pair.1.toBitVec = x with
  | none => simp
  | some pair => exact List.mem_append_left _ (List.mem_map_of_mem (List.mem_of_find?_eq_some found))

structure Call where
  method : MemberRef
  args : List Number
deriving DecidableEq

-- The results of calls, by all calls up to now.
structure Oracle where
  int : List Call → BitVec 32
  long : List Call → BitVec 64

def Oracle.answer? (oracle : Oracle) (type : Descriptor) (calls : List Call) : Option (Option Number) :=
  match type.kind? with
  | none => some none
  | some .int => some (some (.int (oracle.int calls)))
  | some .long => some (some (.long (oracle.long calls)))
  | some _ => none

inductive Move (σ : Type) where
  | next (state : σ)
  | jump (target : Label) (state : σ)
  | ends (calls : List Call) (ending : Ending)

-- Without a move a machine is stuck.
structure Machine (α σ : Type) where
  code : List α
  label? : α → Option Label
  move? : α → σ → Option (Move σ)

namespace Machine

variable {α σ : Type}

def place? (m : Machine α σ) (label : Label) : Option Nat := m.code.findIdx? fun a => m.label? a = some label

def moveAt? (m : Machine α σ) (pc : Nat) (s : σ) : Option (Move σ) := m.code[pc]?.bind fun a => m.move? a s

-- Runs that end, with all calls they make. A jump goes on after its label.
inductive Runs (m : Machine α σ) : Nat → σ → List Call → Ending → Prop where
  | ends {pc : Nat} {s : σ} {calls : List Call} {ending : Ending} : m.moveAt? pc s = some (.ends calls ending) →
      Runs m pc s calls ending
  | next {pc : Nat} {s t : σ} {calls : List Call} {ending : Ending} : m.moveAt? pc s = some (.next t) →
      Runs m (pc + 1) t calls ending → Runs m pc s calls ending
  | jump {pc there : Nat} {s t : σ} {label : Label} {calls : List Call} {ending : Ending} :
      m.moveAt? pc s = some (.jump label t) → m.place? label = some there → Runs m (there + 1) t calls ending →
      Runs m pc s calls ending

variable {m : Machine α σ} {pc : Nat} {s : σ} {a : α} {calls other : List Call} {ending different : Ending}

theorem place_eq {label : Label} {n : Nat} :
    m.place? label = some n ↔ (∃ a, m.code[n]? = some a ∧ m.label? a = some label) ∧
      ∀ k a, k < n → m.code[k]? = some a → m.label? a ≠ some label := by
  unfold place?
  rw [List.findIdx?_eq_some_iff_getElem]
  constructor
  · rintro ⟨inside,here,first⟩
    refine ⟨⟨_,List.getElem?_eq_getElem inside,of_decide_eq_true here⟩,?_⟩
    intro k a before found same
    obtain ⟨within,rfl⟩ := List.getElem?_eq_some_iff.mp found
    exact first k before (decide_eq_true same)
  · rintro ⟨⟨a,found,same⟩,first⟩
    obtain ⟨inside,rfl⟩ := List.getElem?_eq_some_iff.mp found
    refine ⟨inside,decide_eq_true same,?_⟩
    intro k before here
    exact first k _ before (List.getElem?_eq_getElem (Nat.lt_trans before inside)) (of_decide_eq_true here)

theorem moveAt_eq (here : m.code[pc]? = some a) (s : σ) : m.moveAt? pc s = m.move? a s := by
  simp [moveAt?,here]

def Continues (m : Machine α σ) (pc : Nat) (calls : List Call) (ending : Ending) : Move σ → Prop
  | .next s => m.Runs pc s calls ending
  | .jump label s => ∃ there, m.place? label = some there ∧ m.Runs (there + 1) s calls ending
  | .ends made reached => made = calls ∧ reached = ending

theorem runs_of_move {move : Move σ} (moved : m.moveAt? pc s = some move) (rest : m.Continues (pc + 1) calls ending move) :
    m.Runs pc s calls ending := by
  cases move with
  | next t => exact .next moved rest
  | jump label t =>
    obtain ⟨there,placed,onward⟩ := rest
    exact .jump moved placed onward
  | ends made reached =>
    obtain ⟨rfl,rfl⟩ := rest
    exact .ends moved

theorem Runs.move (run : m.Runs pc s calls ending) :
    ∃ move, m.moveAt? pc s = some move ∧ m.Continues (pc + 1) calls ending move := by
  cases run with
  | ends moved => exact ⟨_,moved,rfl,rfl⟩
  | next moved rest => exact ⟨_,moved,rest⟩
  | jump moved placed rest => exact ⟨_,moved,_,placed,rest⟩

theorem Runs.unique (one : m.Runs pc s calls ending) (two : m.Runs pc s other different) :
    calls = other ∧ ending = different := by
  induction one with
  | ends moved =>
    obtain ⟨move,same,rest⟩ := two.move
    cases moved.symm.trans same
    exact rest
  | next moved _ ih =>
    obtain ⟨move,same,rest⟩ := two.move
    cases moved.symm.trans same
    exact ih rest
  | jump moved placed _ ih =>
    obtain ⟨move,same,rest⟩ := two.move
    cases moved.symm.trans same
    obtain ⟨there,found,onward⟩ := rest
    cases placed.symm.trans found
    exact ih onward

end Machine

end Restack
