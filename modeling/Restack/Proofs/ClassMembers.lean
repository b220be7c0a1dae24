import Mathlib
import Restack.Container.ClassData
import Restack.Proofs.Bytes.Written

namespace Restack

-- The members of a class are read as they were stored, whatever stands before and after them.

open Reader (Finds pure_finds uleb128_finds)

-- Members one after another. An index is stored as its difference to the one before it, which may wrap around.
def memberBytes (index : α → UInt32) (others : α → List UInt32) (previous : UInt32) (members : List α) : List UInt8 :=
  (List.zipWith (fun m before => Leb128.encode (index m - before) ++ (others m).flatMap Leb128.encode) members
    (previous :: members.map index)).flatten

theorem memberBytes_cons (index : α → UInt32) (others : α → List UInt32) (previous : UInt32) (first : α) (rest : List α) :
    memberBytes index others previous (first :: rest) =
      Leb128.encode (index first - previous) ++ ((others first).flatMap Leb128.encode ++ memberBytes index others (index first) rest) := by
  simp [memberBytes]

namespace ClassData

def fieldBytes : UInt32 → List FieldEntry → List UInt8 := memberBytes FieldEntry.field fun e => [e.accessFlags]

def methodBytes : UInt32 → List MethodEntry → List UInt8 := memberBytes MethodEntry.method fun e => [e.accessFlags,e.code]

-- Four numbers of members, then the members. The differences of each list start from zero.
def encode (data : ClassData) : List UInt8 :=
  Leb128.encode (UInt32.ofNat data.staticFields.length) ++ Leb128.encode (UInt32.ofNat data.instanceFields.length) ++
    Leb128.encode (UInt32.ofNat data.directMethods.length) ++ Leb128.encode (UInt32.ofNat data.virtualMethods.length) ++
    fieldBytes 0 data.staticFields ++ fieldBytes 0 data.instanceFields ++
    methodBytes 0 data.directMethods ++ methodBytes 0 data.virtualMethods

-- The difference is found as it was stored, and the index before it gives the index back.

theorem readFields_finds (previous : UInt32) (fields : List FieldEntry) :
    Finds (readFields fields.length previous) (fieldBytes previous fields) fields := by
  induction fields generalizing previous with
  | nil => exact pure_finds []
  | cons first rest ih =>
    rw [fieldBytes,memberBytes_cons,List.flatMap_singleton]
    apply (uleb128_finds _).bind
    dsimp only
    rw [add_sub_cancel]
    exact (uleb128_finds first.accessFlags).bind (ih first.field).map

theorem readMethods_finds (previous : UInt32) (methods : List MethodEntry) :
    Finds (readMethods methods.length previous) (methodBytes previous methods) methods := by
  induction methods generalizing previous with
  | nil => exact pure_finds []
  | cons first rest ih =>
    rw [methodBytes,memberBytes_cons,List.flatMap_cons,List.flatMap_singleton,List.append_assoc]
    apply (uleb128_finds _).bind
    dsimp only
    rw [add_sub_cancel]
    exact (uleb128_finds first.accessFlags).bind ((uleb128_finds first.code).bind (ih first.method).map)

end ClassData

theorem class_members_read (data : ClassData) (statics : data.staticFields.length < 2 ^ 32)
    (instances : data.instanceFields.length < 2 ^ 32) (direct : data.directMethods.length < 2 ^ 32)
    (virtual : data.virtualMethods.length < 2 ^ 32) : Finds ClassData.read data.encode data := by
  have counted : ∀ n < 2 ^ 32, (UInt32.ofNat n).toNat = n := fun n small => UInt32.toNat_ofNat_of_lt small
  have fields : ∀ listed : List FieldEntry, listed.length < 2 ^ 32 →
      Finds (ClassData.readFields (UInt32.ofNat listed.length).toNat 0) (ClassData.fieldBytes 0 listed) listed := by
    intro listed few
    rw [counted _ few]
    exact ClassData.readFields_finds 0 listed
  have methods : ∀ listed : List MethodEntry, listed.length < 2 ^ 32 →
      Finds (ClassData.readMethods (UInt32.ofNat listed.length).toNat 0) (ClassData.methodBytes 0 listed) listed := by
    intro listed few
    rw [counted _ few]
    exact ClassData.readMethods_finds 0 listed
  unfold ClassData.encode
  simp only [List.append_assoc]
  apply (uleb128_finds _).bind
  apply (uleb128_finds _).bind
  apply (uleb128_finds _).bind
  apply (uleb128_finds _).bind
  apply (fields data.staticFields statics).bind
  apply (fields data.instanceFields instances).bind
  apply (methods data.directMethods direct).bind
  exact (methods data.virtualMethods virtual).map

-- Indices that go down wrap around, and each list starts from zero again.
def wrappedMembers : ClassData where
  staticFields := [⟨7,1⟩,⟨3,0xffffffff⟩]
  instanceFields := [⟨3,2⟩]
  directMethods := [⟨0xffffffff,0x10001,300⟩,⟨0,1,0⟩]
  virtualMethods := []

theorem class_members_read_wrappedMembers :
    wrappedMembers.encode = [2,1,2,0,7,1,0xfc,0xff,0xff,0xff,0x0f,0xff,0xff,0xff,0xff,0x0f,3,2,0xff,0xff,0xff,0xff,0x0f,0x81,0x80,0x04,
      0xac,0x02,1,1,0] ∧
    ClassData.read ([0x80] ++ wrappedMembers.encode ++ [0xff]).toArray 1 = .ok (wrappedMembers,32) := by
  have bytes : wrappedMembers.encode.length = 31 := by decide +kernel
  have found := class_members_read wrappedMembers (by decide) (by decide) (by decide) (by decide) [0x80] [0xff]
  rw [bytes] at found
  exact ⟨by decide +kernel,found⟩

end Restack
