import Mathlib
import Restack.Proofs.Body.DebugIndices
import Restack.Proofs.NumberDecoding
import Restack.Proofs.Lowering.Run

namespace Restack

-- The number of an optional index is one more than it, and the one less is taken as a signed word, so the number of the least
-- signed word has no index. A program that comes to this number is given up for it, and not as a program that a method can do
-- without.

namespace Reader

variable {bytes : Bytes} {start stop count : Nat} {n : UInt32} {i : Int32} {fault : Fault}

theorem toInt32_toInt (n : UInt32) : n.toInt32.toInt = if n.toNat < 2 ^ 31 then (n.toNat : Int) else n.toNat - 2 ^ 32 := by
  have word : n.toInt32.toInt = n.toBitVec.toInt := rfl
  rw [word,BitVec.toInt_eq_toNat_cond,UInt32.toNat_toBitVec]
  split <;> split <;> omega

theorem predecessor_ok : predecessor n = .ok i ↔ i.toInt = n.toInt32.toInt - 1 := by
  have low := i.le_toInt
  have signed := toInt32_toInt n
  have small := n.toNat_lt
  unfold predecessor
  split
  · rename_i least
    rw [least] at signed
    constructor
    · simp
    · intro same
      omega
  · rename_i other
    have exact : (n.toInt32 - 1).toInt = n.toInt32.toInt - 1 := by
      rw [Int32.toInt_sub,show (1 : Int32).toInt = 1 from rfl]
      apply Int.bmod_eq_of_le <;> split at signed <;> omega
    rw [← exact,Int32.toInt_inj,Except.ok.injEq,eq_comm]

theorem predecessor_error : predecessor n = .error fault ↔ n.toNat = 2 ^ 31 ∧ fault = ⟨.overflow,[]⟩ := by
  unfold predecessor
  split
  · rename_i least
    simp [least,eq_comm]
  · rename_i other
    simp [other]

theorem uleb128p1_decode (found : Leb128.decode (bytes.toList.drop start) = some (n,count)) :
    uleb128p1 bytes start = (liftM (predecessor n) : Reader Int32) bytes (start + count) := by
  have number : unsignedLeb .uleb128p1 bytes start = .ok (n,start + count) := by
    rw [unsignedLeb_decode,found]
    rfl
  exact bind_read number

theorem uleb128p1_ok (found : Leb128.decode (bytes.toList.drop start) = some (n,count)) : uleb128p1 bytes start = .ok (i,stop) ↔
    n.toNat ≠ 2 ^ 31 ∧ stop = start + count ∧ i.toInt = if n.toNat < 2 ^ 31 then (n.toNat : Int) - 1 else n.toNat - 1 - 2 ^ 32 := by
  have low := i.le_toInt
  rw [uleb128p1_decode found,reader_lift_ok,predecessor_ok,toInt32_toInt]
  split <;> constructor <;> intro given <;> omega

theorem uleb128p1_error (found : Leb128.decode (bytes.toList.drop start) = some (n,count)) :
    uleb128p1 bytes start = .error fault ↔ n.toNat = 2 ^ 31 ∧ fault = ⟨.overflow,[]⟩ := by
  rw [uleb128p1_decode found,lift_error,predecessor_error]

end Reader

open Reader (bind_error bind_read uleb128p1_ok uleb128p1_error)

namespace DebugOp

variable {lookup : UInt32 → Except Fault String} {bytes : Bytes} {start count : Nat} {n : UInt32}

theorem optionalName_decode (found : Leb128.decode (bytes.toList.drop start) = some (n,count)) : optionalName lookup bytes start =
    if n.toNat = 0 ∨ 2 ^ 31 < n.toNat then .ok (none,start + count)
    else if n.toNat = 2 ^ 31 then .error ⟨.overflow,[]⟩
    else (lookup (n - 1)).map fun text => (some text,start + count) := by
  cases read : Reader.uleb128p1 bytes start with
  | error fault =>
    obtain ⟨least,rfl⟩ := (uleb128p1_error found).mp read
    rw [if_neg (by omega),if_pos least]
    exact bind_error.mpr (.inl read)
  | ok result =>
    obtain ⟨i,stop⟩ := result
    obtain ⟨other,rfl,signed⟩ := (uleb128p1_ok found).mp read
    have negative : i < 0 ↔ n.toNat = 0 ∨ 2 ^ 31 < n.toNat := by
      have small := n.toNat_lt
      rw [Int32.lt_iff_toInt_lt,Int32.toInt_zero,signed]
      split <;> omega
    rw [optionalName,bind_read read]
    by_cases absent : n.toNat = 0 ∨ 2 ^ 31 < n.toNat
    · rw [if_pos absent,if_pos (negative.mpr absent)]
      rfl
    · rw [if_neg absent,if_neg other,if_neg (mt negative.mp absent)]
      have lower : (n - 1).toNat = n.toNat - 1 := by
        rw [UInt32.toNat_sub_of_le _ _ (UInt32.le_iff_toNat_le.mpr (by rw [UInt32.toNat_one]; omega)),UInt32.toNat_one]
      have index : i = (n - 1).toInt32 := by
        rw [← Int32.toInt_inj,signed,Reader.toInt32_toInt,lower,if_pos (by omega),if_pos (by omega)]
        omega
      rw [index,UInt32.toUInt32_toInt32]
      cases lookup (n - 1) <;> rfl

theorem optionalName_overflow (inside : ∀ index, InContainer (lookup index)) :
    (∃ fault, optionalName lookup bytes start = .error fault ∧ fault.cause = .overflow) ↔
      ∃ count, Leb128.decode (bytes.toList.drop start) = some (2 ^ 31,count) := by
  constructor
  · intro stopped
    obtain ⟨fault,failed,overflows⟩ := stopped
    cases found : Leb128.decode (bytes.toList.drop start) with
    | none =>
      have missing : Reader.uleb128p1 bytes start = reject (.endOfStream .uleb128p1 start) := by
        refine bind_error.mpr (.inl ?_)
        rw [Reader.unsignedLeb_decode,found]
        rfl
      cases (bind_error.mpr (.inl missing)).symm.trans failed
      cases overflows
    | some result =>
      obtain ⟨n,count⟩ := result
      rw [optionalName_decode found] at failed
      split at failed
      · cases failed
      · split at failed
        · rename_i least
          exact ⟨count,by rw [← UInt32.toNat_inj.mp (show n.toNat = (2 ^ 31 : UInt32).toNat from least)]⟩
        · obtain ⟨cause,stored⟩ := (inside (n - 1)).map _ _ failed
          cases stored.symm.trans overflows
  · intro stands
    obtain ⟨count,found⟩ := stands
    refine ⟨⟨.overflow,[]⟩,?_,rfl⟩
    rw [optionalName_decode found]
    rfl

end DebugOp

namespace DebugInfo

variable {c : Container} {offset : UInt32} {file : Option String} {labels : LabelTable} {fault : Fault}

-- What cannot be read of debug information concerns the method only, overflows apart.

theorem read_error : read c offset file labels = .error fault ↔ ∃ told, readProgram c file labels c.bytes offset.toNat = .error told ∧
    fault = (asInexpressible told).within (.debugInfo offset.toNat) := by
  rw [read]
  cases ran : (readProgram c file labels).valueAt c.bytes offset.toNat with
  | ok result =>
    obtain ⟨stop,done⟩ := Reader.valueAt_ok.mp ran
    simp [within,done]
  | error told => simp [within,Reader.valueAt_error.mp ran,eq_comm]

theorem asInexpressible_overflow {told : Fault} : (asInexpressible told).cause = .overflow ↔ told.cause = .overflow := by
  obtain ⟨cause,contexts⟩ := told
  cases cause <;> simp [asInexpressible]

theorem asInexpressible_refused {told : Fault} (other : told.cause ≠ .overflow) : (asInexpressible told).cause.Refused := by
  obtain ⟨cause,contexts⟩ := told
  cases cause with
  | malformed why => exact ⟨_,rfl⟩
  | inexpressible why => exact ⟨why,rfl⟩
  | overflow => exact absurd rfl other

end DebugInfo

theorem optional_indices_overflow_iff (bytes : Bytes) (start : Nat) (c : Container) (offset : UInt32) (file : Option String)
    (labels : LabelTable) :
    (∀ n count, Leb128.decode (bytes.toList.drop start) = some (n,count) →
      (∀ i stop, Reader.uleb128p1 bytes start = .ok (i,stop) ↔ n.toNat ≠ 2 ^ 31 ∧ stop = start + count ∧
        i.toInt = if n.toNat < 2 ^ 31 then (n.toNat : Int) - 1 else n.toNat - 1 - 2 ^ 32) ∧
      (∀ fault, Reader.uleb128p1 bytes start = .error fault ↔ n.toNat = 2 ^ 31 ∧ fault = ⟨.overflow,[]⟩) ∧
      ∀ lookup, DebugOp.optionalName lookup bytes start =
        if n.toNat = 0 ∨ 2 ^ 31 < n.toNat then .ok (none,start + count)
        else if n.toNat = 2 ^ 31 then .error ⟨.overflow,[]⟩
        else (lookup (n - 1)).map fun text => (some text,start + count)) ∧
    -- An index without an answer is the fault of the program that comes to it.
    (∀ lookup place fault, DebugInfo.IndexAt c offset file labels lookup place →
      DebugOp.optionalName lookup c.bytes place = .error fault →
      DebugInfo.read c offset file labels = .error ((DebugInfo.asInexpressible fault).within (.debugInfo offset.toNat))) ∧
    ((∃ fault, DebugInfo.read c offset file labels = .error fault ∧ fault.cause = .overflow) ↔
      ∃ lookup place count, DebugInfo.IndexAt c offset file labels lookup place ∧
        Leb128.decode (c.bytes.toList.drop place) = some (2 ^ 31,count)) ∧
    ∀ fault, DebugInfo.read c offset file labels = .error fault → fault.cause = .overflow ∨ fault.cause.Refused := by
  refine ⟨?_,?_,⟨?_,?_⟩,?_⟩
  · intro n count found
    exact ⟨fun i stop => uleb128p1_ok found,fun fault => uleb128p1_error found,fun lookup => DebugOp.optionalName_decode found⟩
  · intro lookup place fault index failed
    exact DebugInfo.read_error.mpr ⟨fault,index.fails failed,rfl⟩
  · intro given
    obtain ⟨fault,failed,overflows⟩ := given
    obtain ⟨told,stopped,rfl⟩ := DebugInfo.read_error.mp failed
    have plain := DebugInfo.asInexpressible_overflow.mp overflows
    obtain ⟨lookup,place,index,here⟩ := DebugInfo.readProgram_overflowsBy told stopped plain
    obtain ⟨count,found⟩ := (DebugOp.optionalName_overflow index.lookups).mp ⟨told,here,plain⟩
    exact ⟨lookup,place,count,index,found⟩
  · intro reached
    obtain ⟨lookup,place,count,index,found⟩ := reached
    obtain ⟨told,here,plain⟩ := (DebugOp.optionalName_overflow index.lookups).mpr ⟨count,found⟩
    exact ⟨_,DebugInfo.read_error.mpr ⟨told,index.fails here,rfl⟩,DebugInfo.asInexpressible_overflow.mpr plain⟩
  · intro fault failed
    obtain ⟨told,-,rfl⟩ := DebugInfo.read_error.mp failed
    by_cases overflows : told.cause = .overflow
    · exact .inl (DebugInfo.asInexpressible_overflow.mpr overflows)
    · exact .inr (DebugInfo.asInexpressible_refused overflows)

-- The number of a parameter's name is one past the one without an index, and that of a variable's signature is this one.
def leastSignature : Container where
  __ := Lowering.bare
  bytes := #[0x00,0x01,0x01,0x81,0x80,0x80,0x80,0x08,0x04,0x00,0x01,0x01,0x80,0x80,0x80,0x80,0x08,0x00]
  strings := #["n","I"]
  types := #[1]

def oneReturn : LabelTable := ⟨[(0,⟨⟨0⟩,false,none⟩),(1,⟨⟨1⟩,false,none⟩)],[0],1,2⟩

theorem leastSignature_overflows : Leb128.decode (leastSignature.bytes.toList.drop 12) = some (2 ^ 31,5) ∧
    Reader.uleb128p1 leastSignature.bytes 12 = .error ⟨.overflow,[]⟩ ∧
    DebugInfo.read leastSignature 1 none oneReturn = .error ⟨.overflow,[.debugInfo 1]⟩ :=
  ⟨by decide,rfl,by cbv⟩

theorem optional_indices_overflow_iff_leastSignature :
    (Leb128.decode (leastSignature.bytes.toList.drop 3) = some (0x80000001,5) ∧
      (∀ fault, Reader.uleb128p1 leastSignature.bytes 3 ≠ .error fault) ∧
      DebugOp.optionalName leastSignature.string leastSignature.bytes 3 = .ok (none,8)) ∧
    DebugInfo.IndexAt leastSignature 1 none oneReturn leastSignature.string 12 ∧
    DebugInfo.read leastSignature 1 none oneReturn = .error ⟨.overflow,[.debugInfo 1]⟩ ∧
    ∃ lookup place count, DebugInfo.IndexAt leastSignature 1 none oneReturn lookup place ∧
      Leb128.decode (leastSignature.bytes.toList.drop place) = some (2 ^ 31,count) := by
  have found : Leb128.decode (leastSignature.bytes.toList.drop 3) = some (0x80000001,5) := by decide
  have headed : DebugInfo.Headed leastSignature 1 1 1 3 := ⟨2,rfl,rfl⟩
  have names : Reader.times (1 : UInt32).toNat (DebugOp.optionalName leastSignature.string) leastSignature.bytes 3 = .ok ([none],8) := rfl
  have signature : DebugOp.VariableIndex leastSignature true 9 leastSignature.string 12 := .signature rfl rfl rfl rfl
  have index : DebugInfo.IndexAt leastSignature 1 none oneReturn leastSignature.string 12 :=
    .step headed names .here (.startExtended rfl signature)
  obtain ⟨numbers,stops,overflows,-⟩ := optional_indices_overflow_iff leastSignature.bytes 3 leastSignature 1 none oneReturn
  obtain ⟨-,fails,named⟩ := numbers 0x80000001 5 found
  have read : DebugInfo.read leastSignature 1 none oneReturn = .error ⟨.overflow,[.debugInfo 1]⟩ := stops _ _ ⟨.overflow,[]⟩ index rfl
  refine ⟨⟨found,?_,named leastSignature.string⟩,index,read,overflows.mp ⟨_,read,rfl⟩⟩
  intro fault failed
  exact absurd ((fails fault).mp failed).1 (by decide)

end Restack
