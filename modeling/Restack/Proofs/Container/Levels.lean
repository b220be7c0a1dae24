import Mathlib
import Restack.Container.Value
import Restack.Proofs.Bytes.Local

namespace Restack

-- Values hold values. Each level takes a byte of its own before it goes on with those in it, so the recursion
-- comes to an end on all bytes, and the levels there is room for are enough.

open Reader (Local pure_local lift_local offset_local size_local local_of_fault timesFrom_local times_local u1_local uleb128_local)

variable {α β : Type} {least : Nat} {bytes : Bytes} {start : Nat}

namespace Value

theorem itemsWith_local {r s : Reader Value} (nested : Local least r s) : Local 1 (itemsWith r) (itemsWith s) :=
  uleb128_local.bind fun count => times_local nested count.toNat

theorem elementsWith_local {r s : Reader Value} (nested : Local least r s) : Local 1 (elementsWith r) (elementsWith s) := by
  have element := uleb128_local.bind fun name => nested.bind fun value => pure_local (name,value)
  exact uleb128_local.bind fun count => times_local element count.toNat

def leaf (start type width : Nat) : Reader Value := do
  let bytes ← Reader.times width Reader.u1
  match ofBytes? type width (littleEndian bytes) with
  | some value => return value
  | none => (reject (.unknownValueType type start) : Except Fault Value)

def content (nested : Reader Value) (start : Nat) (header : UInt8) : Reader Value :=
  let type := header.toNat % 32
  let arg := header.toNat / 32
  match type with
  | 0x1c => return .array (← itemsWith nested)
  | 0x1d => do
    let annotType ← Reader.uleb128
    return .annot annotType (← elementsWith nested)
  | 0x1e => return .null
  | 0x1f => return .boolean (arg ≠ 0)
  | _ =>
    match maxSize? type with
    | none => liftM (reject (.unknownValueType type start) : Except Fault Value)
    | some limit =>
      if limit < arg + 1 then liftM (reject (.valueTooWide type (arg + 1) start) : Except Fault Value)
      else leaf start type (arg + 1)

def level (nested : Reader Value) : Reader Value := do
  let start ← Reader.offset
  let header ← Reader.u1
  content nested start header

theorem readNested_succ (depth : Nat) : readNested (depth + 1) = level (readNested depth) := rfl

theorem leaf_local (start type width : Nat) : Local 0 (leaf start type width) (leaf start type width) := by
  apply (times_local u1_local width).bind (k := 0)
  intro bytes
  split
  · exact pure_local _
  · exact lift_local fun _ => id

theorem content_local {r s : Reader Value} (nested : Local least r s) (start : Nat) (header : UInt8) :
    Local 0 (content r start header) (content s start header) := by
  unfold content
  dsimp only
  split
  · exact ((itemsWith_local nested).bind fun _ => pure_local _).weaken (by decide)
  · exact (uleb128_local.bind fun _ => (elementsWith_local nested).bind fun _ => pure_local _).weaken (by decide)
  · exact pure_local _
  · exact pure_local _
  · split
    · exact lift_local fun _ => id
    · split
      · exact lift_local fun _ => id
      · exact leaf_local _ _ _

theorem level_local {r s : Reader Value} (nested : Local least r s) : Local 1 (level r) (level s) :=
  offset_local fun start => u1_local.bind fun header => content_local nested start header

theorem readNested_local {depth deeper : Nat} (le : depth ≤ deeper) : Local 1 (readNested depth) (readNested deeper) := by
  induction depth generalizing deeper with
  | zero =>
    apply local_of_fault
    · intro bytes start
      have told : Reader.Asks (Reader.offset >>= fun place => liftM (reject (.endOfStream .u1 place) : Except Fault Value))
          bytes start (0 + 0) := .bind rfl .offset (.lift _)
      exact told
    · intro bytes start result done
      cases done
  | succ depth ih =>
    cases deeper with
    | zero => omega
    | succ deeper => exact level_local (ih (by omega))

theorem room_local {f g : Nat → Reader α} (each : ∀ {depth deeper}, depth ≤ deeper → Local least (f depth) (g deeper)) :
    Local least (fun bytes start => f (depthAt bytes start) bytes start) (fun bytes start => g (depthAt bytes start) bytes start) := by
  have told : Local least (Reader.offset >>= fun start => Reader.size >>= fun n => f (n - start))
      (Reader.offset >>= fun start => Reader.size >>= fun n => g (n - start)) :=
    offset_local fun start => size_local fun n m le => each (by omega)
  exact told

theorem read_local : Local 1 read read := room_local readNested_local

theorem readArray_local : Local 1 readArray readArray := room_local fun le => itemsWith_local (readNested_local le)

-- Levels are read from above, so what is read below an offset cannot matter to it.

def AgreesFrom (r s : Reader α) (bytes : Bytes) (start : Nat) : Prop := ∀ place, start ≤ place → r bytes place = s bytes place

theorem AgreesFrom.bind {r s : Reader α} {f g : α → Reader β} (first : AgreesFrom r s bytes start) (steady : Local least s s)
    (rest : ∀ a, AgreesFrom (f a) (g a) bytes start) : AgreesFrom (r >>= f) (s >>= g) bytes start := by
  intro place le
  change Reader.bind r f bytes place = Reader.bind s g bytes place
  unfold Reader.bind
  rw [first place le]
  split
  · rename_i a middle done
    have := steady.reaches done
    exact rest a middle (by omega)
  · rfl

theorem agreesFrom_same (r : Reader α) : AgreesFrom r r bytes start := fun _ _ => rfl

theorem AgreesFrom.timesFrom {r s : Reader α} (nested : AgreesFrom r s bytes start) (steady : Local least s s) (i count : Nat) :
    AgreesFrom (Reader.timesFrom (fun _ => r) i count) (Reader.timesFrom (fun _ => s) i count) bytes start := by
  induction count generalizing i with
  | zero => exact agreesFrom_same _
  | succ count ih =>
    have many := timesFrom_local (fun _ => steady) (i + 1) count
    exact nested.bind steady fun first => (ih (i + 1)).bind many fun rest => agreesFrom_same _

theorem AgreesFrom.items {r s : Reader Value} (nested : AgreesFrom r s bytes start) (steady : Local least s s) :
    AgreesFrom (itemsWith r) (itemsWith s) bytes start :=
  (agreesFrom_same _).bind uleb128_local fun count => nested.timesFrom steady 0 count.toNat

theorem AgreesFrom.elements {r s : Reader Value} (nested : AgreesFrom r s bytes start) (steady : Local least s s) :
    AgreesFrom (elementsWith r) (elementsWith s) bytes start := by
  refine (agreesFrom_same _).bind uleb128_local fun count => ?_
  have element : Local 1 (do return ((← Reader.uleb128),(← s))) (do return ((← Reader.uleb128),(← s))) :=
    uleb128_local.bind fun name => steady.bind fun value => pure_local (name,value)
  refine AgreesFrom.timesFrom ?_ element 0 count.toNat
  exact (agreesFrom_same _).bind uleb128_local fun name => nested.bind steady fun value => agreesFrom_same _

theorem AgreesFrom.content {r s : Reader Value} (nested : AgreesFrom r s bytes start) (steady : Local least s s) (place : Nat)
    (header : UInt8) : AgreesFrom (content r place header) (content s place header) bytes start := by
  unfold Value.content
  dsimp only
  split
  · exact (nested.items steady).bind (itemsWith_local steady) fun _ => agreesFrom_same _
  · exact (agreesFrom_same _).bind uleb128_local fun _ =>
      (nested.elements steady).bind (elementsWith_local steady) fun _ => agreesFrom_same _
  · exact agreesFrom_same _
  · exact agreesFrom_same _
  · exact agreesFrom_same _

theorem level_agrees {r s : Reader Value} (nested : AgreesFrom r s bytes (start + 1)) (steady : Local least s s) :
    level r bytes start = level s bytes start := by
  change Reader.bind Reader.u1 (content r start) bytes start = Reader.bind Reader.u1 (content s start) bytes start
  unfold Reader.bind
  split
  · rename_i header middle done
    have := u1_local.reaches done
    exact nested.content steady start header middle (by omega)
  · rfl

theorem level_past (r : Reader Value) (past : bytes.size ≤ start) : level r bytes start = reject (.endOfStream .u1 start) := by
  have short : Reader.u1 bytes start = reject (.endOfStream .u1 start) := by
    change Reader.bind (Reader.word .u1 1) _ bytes start = _
    rw [Reader.bind,Reader.word,if_pos (by omega)]
    rfl
  change Reader.bind Reader.u1 (content r start) bytes start = _
  rw [Reader.bind,short]
  rfl

theorem readNested_enough {depth : Nat} (room : bytes.size - start ≤ depth) : readNested depth bytes start = read bytes start := by
  have deeper : ∀ {depth start}, bytes.size - start ≤ depth → readNested depth bytes start = readNested (depth + 1) bytes start := by
    intro depth
    induction depth with
    | zero =>
      intro start room
      rw [readNested_succ,level_past _ (by omega)]
      rfl
    | succ depth ih =>
      intro start room
      rw [readNested_succ,readNested_succ]
      apply level_agrees _ (readNested_local le_rfl)
      intro place above
      exact ih (by omega)
  induction depth, room using Nat.le_induction with
  | base => rfl
  | succ depth room ih => rw [← deeper room,ih]

theorem read_level : read = level read := by
  funext bytes start
  rw [← readNested_enough (Nat.le_succ _),readNested_succ]
  apply level_agrees _ read_local
  intro place above
  exact readNested_enough (by omega)

-- The recursion has one solution, so it comes to an end on all bytes.
theorem read_unique {r : Reader Value} (fixed : r = level r) : r = read := by
  have nested : ∀ {depth bytes start}, bytes.size - start ≤ depth → r bytes start = readNested depth bytes start := by
    intro depth bytes
    induction depth with
    | zero =>
      intro start room
      rw [fixed,level_past _ (by omega)]
      rfl
    | succ depth ih =>
      intro start room
      rw [fixed,readNested_succ]
      apply level_agrees _ (readNested_local le_rfl)
      intro place above
      exact ih (by omega)
  funext bytes start
  exact nested le_rfl

end Value

def Annot.readNested (depth : Nat) : Reader Annot := do
  let type ← Reader.uleb128
  let elements ← Value.elementsWith (Value.readNested depth)
  return ⟨type,elements⟩

theorem readAnnot_local : Local 1 Annot.read Annot.read := by
  have nested : ∀ {depth deeper}, depth ≤ deeper → Local 1 (Annot.readNested depth) (Annot.readNested deeper) := fun le =>
    uleb128_local.bind fun type => (Value.elementsWith_local (Value.readNested_local le)).bind fun elements =>
      pure_local (Annot.mk type elements)
  exact Value.room_local nested

end Restack
