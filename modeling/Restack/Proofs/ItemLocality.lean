import Mathlib
import Restack.Container.Basic
import Restack.Proofs.Container.Levels

namespace Restack

-- The items of a container are read by the bytes they take, whatever is around them and whatever counts they hold.

open Reader (Local pure_local lift_local offset_local size_local guard_local times_local exactly_local take_local sleb128_local u1_local u2_local
  u4_local uleb128_local)

theorem readAnnotItem_local : Local 1 AnnotItem.read AnnotItem.read :=
  u1_local.bind fun _ => (lift_local fun _ => id).bind fun _ => readAnnot_local.bind fun _ => pure_local _

theorem readOffsets_local : Local 1 readOffsets readOffsets := by
  apply u4_local.bind
  intro count
  apply offset_local
  intro start
  apply size_local
  intro n m longer
  apply guard_local (by omega)
  exact times_local u4_local count.toNat

theorem readDirectory_local : Local 1 Directory.read Directory.read := by
  have row : Local 1 MemberRow.read MemberRow.read := u4_local.bind fun _ => u4_local.bind fun _ => pure_local _
  apply offset_local
  intro start
  apply u4_local.bind
  intro classOffset
  apply u4_local.bind
  intro fields
  apply u4_local.bind
  intro methods
  apply u4_local.bind
  intro parameters
  apply offset_local
  intro rows
  apply size_local
  intro n m longer
  apply guard_local (by omega)
  exact (times_local row _).bind fun _ => (times_local row _).bind fun _ => (times_local row _).bind fun _ => pure_local _

theorem rejects_eq_ok {p : Prop} [Decidable p] {cause : Malformed} {f : PUnit → Except Fault α} {a : α} :
    (if p then reject cause >>= f else f ⟨⟩) = .ok a ↔ ¬p ∧ f ⟨⟩ = .ok a := by
  by_cases holds : p
  · simp [holds,bind_eq_ok]
  · simp [holds]

theorem check_ok_iff {fileSize headerSize endianTag available : Nat} : Header.check fileSize headerSize endianTag available = .ok () ↔
    endianTag ≠ Header.bigEndianTag ∧ endianTag = Header.littleEndianTag ∧ headerSize = Header.byteSize ∧ fileSize ≤ available := by
  unfold Header.check
  rw [rejects_eq_ok,rejects_eq_ok,rejects_eq_ok]
  by_cases short : available < fileSize
  · simp [short]
  · simp [short,Nat.not_lt.mp short,pure_eq_ok]

theorem readSection_local : Local 1 Section.read Section.read := u4_local.bind fun _ => u4_local.bind fun _ => pure_local _

theorem readHeader_local : Local 1 Header.read Header.read := by
  apply size_local
  intro n m longer
  apply guard_local (fun short => longer.trans_lt short)
  apply (take_local (by decide)).bind
  intro magic
  apply guard_local id
  apply u4_local.bind
  intro checksum
  apply (take_local (by decide)).bind
  intro signature
  apply u4_local.bind
  intro fileSize
  apply u4_local.bind
  intro headerSize
  apply u4_local.bind
  intro endianTag
  have checked : ∀ u, Header.check fileSize.toNat headerSize.toNat endianTag.toNat n = .ok u →
      Header.check fileSize.toNat headerSize.toNat endianTag.toNat m = .ok u := by
    intro u passed
    obtain ⟨swapped,tagged,sized,short⟩ := check_ok_iff.mp passed
    exact check_ok_iff.mpr ⟨swapped,tagged,sized,short.trans longer⟩
  apply (lift_local checked).bind
  intro _
  exact readSection_local.bind fun _ => u4_local.bind fun _ => readSection_local.bind fun _ => readSection_local.bind fun _ =>
    readSection_local.bind fun _ => readSection_local.bind fun _ => readSection_local.bind fun _ => readSection_local.bind fun _ =>
      readSection_local.bind fun _ => pure_local _

theorem readFieldRow_local : Local 1 FieldRow.read FieldRow.read :=
  u2_local.bind fun _ => u2_local.bind fun _ => u4_local.bind fun _ => pure_local _

theorem readMethodRow_local : Local 1 MethodRow.read MethodRow.read :=
  u2_local.bind fun _ => u2_local.bind fun _ => u4_local.bind fun _ => pure_local _

theorem readClassRow_local : Local 1 ClassRow.read ClassRow.read :=
  u4_local.bind fun _ => u4_local.bind fun _ => u4_local.bind fun _ => u4_local.bind fun _ => u4_local.bind fun _ =>
    u4_local.bind fun _ => u4_local.bind fun _ => u4_local.bind fun _ => pure_local _

theorem readFields_local (count : Nat) (previous : UInt32) :
    Local 0 (ClassData.readFields count previous) (ClassData.readFields count previous) := by
  induction count generalizing previous with
  | zero => exact pure_local _
  | succ count ih =>
    exact (uleb128_local.weaken (Nat.zero_le 1)).bind fun _ => uleb128_local.bind fun _ => (ih _).bind fun _ => pure_local _

theorem readMethods_local (count : Nat) (previous : UInt32) :
    Local 0 (ClassData.readMethods count previous) (ClassData.readMethods count previous) := by
  induction count generalizing previous with
  | zero => exact pure_local _
  | succ count ih =>
    exact (uleb128_local.weaken (Nat.zero_le 1)).bind fun _ => uleb128_local.bind fun _ => uleb128_local.bind fun _ =>
      (ih _).bind fun _ => pure_local _

theorem readClassData_local : Local 1 ClassData.read ClassData.read :=
  uleb128_local.bind fun _ => uleb128_local.bind fun _ => uleb128_local.bind fun _ => uleb128_local.bind fun _ =>
    (readFields_local _ _).bind fun _ => (readFields_local _ _).bind fun _ => (readMethods_local _ _).bind fun _ =>
      (readMethods_local _ _).bind fun _ => pure_local _

theorem readTryItem_local : Local 1 TryItem.read TryItem.read :=
  u4_local.bind fun _ => u2_local.bind fun _ => u2_local.bind fun _ => pure_local _

theorem readHandler_local : Local 1 CatchHandler.read CatchHandler.read := by
  have typed := uleb128_local.bind fun type => uleb128_local.bind fun address => pure_local (TypedHandler.mk type address)
  apply sleb128_local.bind
  intro size
  apply (times_local typed size.toInt.natAbs).bind (k := 0)
  intro listed
  split
  · exact (uleb128_local.bind fun _ => pure_local _).weaken (Nat.zero_le 1)
  · exact pure_local _

theorem readHandlers_local (codeStart listStart i count : Nat) (found : NatMap CatchHandler) :
    Local 0 (CodeItem.readHandlers codeStart listStart i count found) (CodeItem.readHandlers codeStart listStart i count found) := by
  induction count generalizing i found with
  | zero => exact pure_local _
  | succ count ih =>
    exact offset_local fun here => ((readHandler_local.weaken (Nat.zero_le 1)).inContext _).bind fun handler => ih _ _

theorem readTries_local (codeStart units tries : Nat) :
    Local 0 (CodeItem.readTries codeStart units tries) (CodeItem.readTries codeStart units tries) := by
  unfold CodeItem.readTries
  split
  · exact pure_local _
  · have listed : Local 0 (do
        let tries ← Reader.times tries TryItem.read
        let listStart ← Reader.offset
        let count ← Reader.uleb128
        let handlers ← CodeItem.readHandlers codeStart listStart 0 count.toNat []
        CodeItem.checkTries codeStart units handlers tries
        return (tries,handlers)) (do
        let tries ← Reader.times tries TryItem.read
        let listStart ← Reader.offset
        let count ← Reader.uleb128
        let handlers ← CodeItem.readHandlers codeStart listStart 0 count.toNat []
        CodeItem.checkTries codeStart units handlers tries
        return (tries,handlers)) :=
      (times_local readTryItem_local _).bind fun tries => offset_local fun listStart => uleb128_local.bind fun count =>
        (readHandlers_local _ _ _ _ _).bind fun handlers => (lift_local fun _ => id).bind fun _ => pure_local _
    split
    · exact (u2_local.weaken (Nat.zero_le 1)).bind fun _ => listed
    · exact listed

theorem readCodeItem_local : Local 1 CodeItem.read CodeItem.read := by
  apply offset_local
  intro start
  apply u2_local.bind
  intro registers
  apply u2_local.bind
  intro ins
  apply u2_local.bind
  intro outs
  apply u2_local.bind
  intro tries
  apply u4_local.bind
  intro debugInfo
  apply guard_local id
  apply u4_local.bind
  intro count
  apply offset_local
  intro here
  apply size_local
  intro n m longer
  apply guard_local (by omega)
  exact (exactly_local u2_local _).bind fun units => (readTries_local _ _ _).bind fun found => pure_local _

inductive Item where
  | header | fieldId | methodId | classDef | classData | codeItem | tryItem | catchHandler | encodedValue | encodedArray
  | encodedAnnotation | annotationItem | annotationSet | annotationSetRefList | annotationsDirectory

namespace Item

def Content : Item → Type
  | header => Header
  | fieldId => FieldRow
  | methodId => MethodRow
  | classDef => ClassRow
  | classData => ClassData
  | codeItem => CodeItem
  | tryItem => TryItem
  | catchHandler => CatchHandler
  | encodedValue => Value
  | encodedArray => List Value
  | encodedAnnotation => Annot
  | annotationItem => AnnotItem
  | annotationSet => List UInt32
  | annotationSetRefList => List UInt32
  | annotationsDirectory => Directory

def read : (item : Item) → Reader item.Content
  | header => Header.read
  | fieldId => FieldRow.read
  | methodId => MethodRow.read
  | classDef => ClassRow.read
  | classData => ClassData.read
  | codeItem => CodeItem.read
  | tryItem => TryItem.read
  | catchHandler => CatchHandler.read
  | encodedValue => Value.read
  | encodedArray => Value.readArray
  | encodedAnnotation => Annot.read
  | annotationItem => AnnotItem.read
  | annotationSet => readOffsets
  | annotationSetRefList => readOffsets
  | annotationsDirectory => Directory.read

theorem read_local (item : Item) : Local 1 item.read item.read := by
  cases item with
  | header => exact readHeader_local
  | fieldId => exact readFieldRow_local
  | methodId => exact readMethodRow_local
  | classDef => exact readClassRow_local
  | classData => exact readClassData_local
  | codeItem => exact readCodeItem_local
  | tryItem => exact readTryItem_local
  | catchHandler => exact readHandler_local
  | encodedValue => exact Value.read_local
  | encodedArray => exact Value.readArray_local
  | encodedAnnotation => exact readAnnot_local
  | annotationItem => exact readAnnotItem_local
  | annotationSet => exact readOffsets_local
  | annotationSetRefList => exact readOffsets_local
  | annotationsDirectory => exact readDirectory_local

end Item

theorem items_read_locally :
    (∀ (item : Item) (bytes : Bytes) (start : Nat),
      (∀ value stop, item.read bytes start = .ok (value,stop) →
        start < stop ∧ stop ≤ bytes.size ∧
        ∀ other : Bytes, bytes.size ≤ other.size → SameBetween bytes other start stop → item.read other start = .ok (value,stop)) ∧
      ∃ asked ≤ bytes.size - start + 1, item.read.Asks bytes start asked) ∧
    Value.read = Value.level Value.read ∧ ∀ r : Reader Value, r = Value.level r → r = Value.read := by
  refine ⟨?_,Value.read_level,fun r => Value.read_unique⟩
  intro item bytes start
  have steady := item.read_local
  constructor
  · intro value stop done
    have reached := steady.reaches done
    exact ⟨by omega,by omega,fun other longer same => steady.carries done longer same⟩
  · obtain ⟨asked,few,asks⟩ := steady.asks bytes start
    refine ⟨asked,?_,asks⟩
    cases answer : item.read bytes start with
    | error fault =>
      rw [answer] at few
      exact few
    | ok result =>
      have reached := steady.reaches answer
      rw [answer] at few
      simp only [Reader.allowance] at few
      omega

-- An array of an annotation, between other bytes.
def nestedItem : Bytes := #[0xff, 0x1c,1, 0x1d,5,1,7, 0x24,0xfe,0xff, 0x33]

def nestedElsewhere : Bytes := #[0, 0x1c,1, 0x1d,5,1,7, 0x24,0xfe,0xff, 0x80,0x80]

theorem items_read_locally_nestedItem :
    ∃ value, Item.encodedValue.read nestedItem 1 = .ok (value,10) ∧ Item.encodedValue.read nestedElsewhere 1 = .ok (value,10) := by
  have read : Item.encodedValue.read nestedItem 1 = .ok (Value.array [.annot 5 [(7,.int (-2))]],10) := rfl
  obtain ⟨-,-,carried⟩ := (items_read_locally.1 .encodedValue nestedItem 1).1 _ _ read
  refine ⟨_,read,carried nestedElsewhere (by decide) ?_⟩
  intro i low high
  interval_cases i <;> rfl

end Restack
