import Mathlib
import Restack.Container.Basic
import Restack.Proofs.Bytes.Places

namespace Restack

-- A container by its bytes alone: where its tables are, what their rows hold and which names a row leads to.

namespace Table

-- Where the header tells of a table, its number of rows first and its offset after it.
def place : Table → Nat
  | .strings => 0x38
  | .types => 0x40
  | .protos => 0x48
  | .fields => 0x50
  | .methods => 0x58
  | .classes => 0x60

def rowSize : Table → Nat
  | .strings => 4
  | .types => 4
  | .protos => 12
  | .fields => 8
  | .methods => 8
  | .classes => 32

def count (t : Table) (bytes : Bytes) : Nat := wordAt bytes t.place 4

def rowAt (t : Table) (bytes : Bytes) (i : Nat) : Nat := wordAt bytes (t.place + 4) 4 + i * t.rowSize

def entry (t : Table) (bytes : Bytes) (i skip width : Nat) : Nat := wordAt bytes (t.rowAt bytes i + skip) width

end Table

-- Its length in UTF-16 units, its data and a zero byte.
def StringStored (bytes : Bytes) (place : Nat) (text : String) : Prop :=
  ∃ length data : List UInt8, Leb128.span Leb128.maxBytes length = some length ∧ 0 ∉ data ∧
    length ++ (data ++ [0]) <+: bytes.toList.drop place ∧ Text.decodeStringData data = some text ∧
      Text.utf16Length text = (UInt32.ofNat (Leb128.denote length)).toNat

def StringAt (bytes : Bytes) (i : Nat) (text : String) : Prop :=
  i < Table.strings.count bytes ∧ StringStored bytes (Table.strings.entry bytes i 0 4) text

def TypeAt (bytes : Bytes) (i : Nat) (descriptor : String) : Prop :=
  i < Table.types.count bytes ∧ StringAt bytes (Table.types.entry bytes i 0 4) descriptor

-- How many there are and the types themselves. Nothing is stored for the empty list at zero.
def TypesAt (bytes : Bytes) (place : Nat) (types : List String) : Prop :=
  if place = 0 then types = []
  else place + 4 + types.length * 2 ≤ bytes.size ∧ wordAt bytes place 4 = types.length ∧
    ∀ j descriptor, types[j]? = some descriptor → TypeAt bytes (wordAt bytes (place + 4 + j * 2) 2) descriptor

structure ProtoAt (bytes : Bytes) (i : Nat) (p : Proto) : Prop where
  below : i < Table.protos.count bytes
  shorty : StringAt bytes (Table.protos.entry bytes i 0 4) p.shorty
  result : TypeAt bytes (Table.protos.entry bytes i 4 4) p.result
  parameters : TypesAt bytes (Table.protos.entry bytes i 8 4) p.parameters

structure FieldAt (bytes : Bytes) (i : Nat) (f : FieldName) : Prop where
  below : i < Table.fields.count bytes
  owner : TypeAt bytes (Table.fields.entry bytes i 0 2) f.owner
  type : TypeAt bytes (Table.fields.entry bytes i 2 2) f.type
  name : StringAt bytes (Table.fields.entry bytes i 4 4) f.name

structure MethodAt (bytes : Bytes) (i : Nat) (m : MethodName) : Prop where
  below : i < Table.methods.count bytes
  owner : TypeAt bytes (Table.methods.entry bytes i 0 2) m.owner
  proto : ProtoAt bytes (Table.methods.entry bytes i 2 2) m.proto
  name : StringAt bytes (Table.methods.entry bytes i 4 4) m.name

-- One index stands for none.
def OptionalAt (Holds : Nat → α → Prop) (index : Nat) : Option α → Prop
  | none => index = noIndex.toNat
  | some a => index ≠ noIndex.toNat ∧ Holds index a

structure ClassRowAt (bytes : Bytes) (place : Nat) (row : ClassRow) : Prop where
  type : row.type.toNat = wordAt bytes place 4
  accessFlags : row.accessFlags.toNat = wordAt bytes (place + 4) 4
  superclass : row.superclass.toNat = wordAt bytes (place + 8) 4
  interfaces : row.interfaces.toNat = wordAt bytes (place + 12) 4
  sourceFile : row.sourceFile.toNat = wordAt bytes (place + 16) 4
  annotations : row.annotations.toNat = wordAt bytes (place + 20) 4
  classData : row.classData.toNat = wordAt bytes (place + 24) 4
  staticValues : row.staticValues.toNat = wordAt bytes (place + 28) 4

structure ClassAt (bytes : Bytes) (i : Nat) (d : ClassDef) : Prop where
  below : i < Table.classes.count bytes
  row : ClassRowAt bytes (Table.classes.rowAt bytes i) d.row
  descriptor : TypeAt bytes (Table.classes.entry bytes i 0 4) d.descriptor
  accessFlags : d.accessFlags = d.row.accessFlags
  superclass : OptionalAt (TypeAt bytes) (Table.classes.entry bytes i 8 4) d.superclass
  interfaces : TypesAt bytes (Table.classes.entry bytes i 12 4) d.interfaces
  sourceFile : OptionalAt (StringAt bytes) (Table.classes.entry bytes i 16 4) d.sourceFile

open Reader (valueAt_ok offset_bind size_bind u4_bind u1_ok uleb128_ok)

variable {bytes : Bytes} {start stop : Nat}

theorem readTerminated_ok {fuel : Nat} {data : List UInt8} : readTerminated fuel bytes start = .ok (data,stop) ↔
    0 ∉ data ∧ data ++ [0] <+: bytes.toList.drop start ∧ data.length < fuel ∧ start + data.length + 1 = stop := by
  induction fuel generalizing start data with
  | zero =>
    constructor
    · intro done
      cases done
    · intro stands
      obtain ⟨-,-,short,-⟩ := stands
      cases short
  | succ fuel ih =>
    rw [readTerminated,reader_bind_ok]
    constructor
    · intro done
      obtain ⟨b,middle,read,done⟩ := done
      obtain ⟨found,rfl⟩ := u1_ok.mp read
      rw [← Array.getElem?_toList] at found
      split at done
      · rename_i zero
        obtain ⟨rfl,rfl⟩ := reader_pure_ok.mp done
        refine ⟨List.not_mem_nil,?_,Nat.succ_pos _,rfl⟩
        exact cons_prefix_drop.mpr ⟨zero ▸ found,List.nil_prefix⟩
      · rename_i nonzero
        obtain ⟨rest,last,later,done⟩ := reader_bind_ok.mp done
        obtain ⟨rfl,rfl⟩ := reader_pure_ok.mp done
        obtain ⟨clean,stands,short,rfl⟩ := ih.mp later
        refine ⟨?_,cons_prefix_drop.mpr ⟨found,stands⟩,Nat.succ_lt_succ short,?_⟩
        · rw [List.mem_cons,not_or]
          exact ⟨Ne.symm nonzero,clean⟩
        · rw [List.length_cons]
          omega
    · intro stored
      obtain ⟨clean,stands,short,rfl⟩ := stored
      cases data with
      | nil =>
        have found := (cons_prefix_drop.mp stands).1
        rw [Array.getElem?_toList] at found
        exact ⟨0,start + 1,u1_ok.mpr ⟨found,rfl⟩,rfl⟩
      | cons b rest =>
        rw [List.mem_cons,not_or] at clean
        obtain ⟨found,stands⟩ := cons_prefix_drop.mp stands
        rw [Array.getElem?_toList] at found
        refine ⟨b,start + 1,u1_ok.mpr ⟨found,rfl⟩,?_⟩
        rw [if_neg (Ne.symm clean.1)]
        refine reader_bind_ok.mpr ⟨rest,_,ih.mpr ⟨clean.2,stands,Nat.lt_of_succ_lt_succ short,?_⟩,rfl⟩
        rw [List.length_cons]
        omega

theorem readString_ok {text : String} : readString.valueAt bytes start = .ok text ↔ StringStored bytes start text := by
  rw [valueAt_ok]
  unfold readString
  constructor
  · intro done
    obtain ⟨stop,done⟩ := done
    rw [offset_bind] at done
    obtain ⟨declared,middle,counted,later⟩ := reader_bind_ok.mp done
    rw [offset_bind,size_bind] at later
    obtain ⟨data,last,ended,told⟩ := reader_bind_ok.mp later
    obtain ⟨length,whole,stands,rfl,rfl⟩ := uleb128_ok.mp counted
    obtain ⟨clean,further,-,-⟩ := readTerminated_ok.mp ended
    refine ⟨length,data,whole,clean,append_prefix_drop.mpr ⟨stands,further⟩,?_⟩
    cases decoded : Text.decodeStringData data with
    | none =>
      rw [decoded] at told
      cases told
    | some found =>
      rw [decoded] at told
      dsimp only at told
      split at told
      · cases told
      · rename_i same
        obtain ⟨rfl,-⟩ := reader_pure_ok.mp told
        exact ⟨rfl,not_not.mp same⟩
  · intro stored
    obtain ⟨length,data,whole,clean,stands,decoded,same⟩ := stored
    obtain ⟨stands,further⟩ := append_prefix_drop.mp stands
    have counted := uleb128_ok.mpr ⟨length,whole,stands,rfl,rfl⟩
    have inside := further.length_le
    simp only [List.length_append,List.length_drop,Array.length_toList,List.length_singleton] at inside
    have ended : readTerminated (bytes.size - (start + length.length)) bytes (start + length.length) =
        .ok (data,start + length.length + data.length + 1) := readTerminated_ok.mpr ⟨clean,further,by omega,rfl⟩
    refine ⟨start + length.length + data.length + 1,?_⟩
    rw [offset_bind]
    refine reader_bind_ok.mpr ⟨_,_,counted,?_⟩
    rw [offset_bind,size_bind]
    refine reader_bind_ok.mpr ⟨_,_,ended,?_⟩
    rw [decoded]
    dsimp only
    rw [if_neg (not_not.mpr same)]
    rfl

def Header.table (h : Header) : Table → Section
  | .strings => h.strings
  | .types => h.types
  | .protos => h.protos
  | .fields => h.fields
  | .methods => h.methods
  | .classes => h.classes

theorem readSection_ok {s : Section} (done : Section.read bytes start = .ok (s,stop)) :
    s.size.toNat = wordAt bytes start 4 ∧ s.offset.toNat = wordAt bytes (start + 4) 4 ∧ stop = start + 8 := by
  obtain ⟨size,counted,done⟩ := u4_bind done
  obtain ⟨place,told,done⟩ := u4_bind done
  obtain ⟨rfl,rfl⟩ := reader_pure_ok.mp done
  exact ⟨counted,told,rfl⟩

theorem take_ok {length : Nat} {found : List UInt8} (done : Reader.take length bytes start = .ok (found,stop)) :
    stop = start + length := by
  unfold Reader.take at done
  split at done
  · cases done
  · cases done
    rfl

theorem refusal_ok {p : Prop} [Decidable p] {cause : Malformed} {f : Unit → Reader α} {result : α × Nat} :
    (if p then (liftM (reject cause : Except Fault Unit) : Reader Unit) >>= f else f ()) bytes start = .ok result ↔
      ¬p ∧ f () bytes start = .ok result := by
  by_cases refused : p
  · rw [if_pos refused]
    constructor
    · intro done
      cases done
    · intro both
      exact absurd refused both.1
  · rw [if_neg refused]
    simp [refused]

theorem header_tables {h : Header} (done : Header.read.valueAt bytes 0 = .ok h) (t : Table) :
    (h.table t).size.toNat = t.count bytes ∧ (h.table t).offset.toNat = wordAt bytes (t.place + 4) 4 := by
  obtain ⟨stop,done⟩ := valueAt_ok.mp done
  unfold Header.read at done
  rw [size_bind] at done
  have done := (refusal_ok.mp done).2
  obtain ⟨magic,_,one,done⟩ := reader_bind_ok.mp done
  cases take_ok one
  have done := (refusal_ok.mp done).2
  obtain ⟨checksum,-,done⟩ := u4_bind done
  obtain ⟨signature,_,one,done⟩ := reader_bind_ok.mp done
  cases take_ok one
  obtain ⟨fileSize,-,done⟩ := u4_bind done
  obtain ⟨headerSize,-,done⟩ := u4_bind done
  obtain ⟨endianTag,-,done⟩ := u4_bind done
  obtain ⟨_,_,one,done⟩ := reader_bind_ok.mp done
  obtain ⟨-,rfl⟩ := reader_lift_ok.mp one
  obtain ⟨link,_,one,done⟩ := reader_bind_ok.mp done
  obtain ⟨-,-,rfl⟩ := readSection_ok one
  obtain ⟨mapOffset,-,done⟩ := u4_bind done
  obtain ⟨strings,_,one,done⟩ := reader_bind_ok.mp done
  obtain ⟨stringsSize,stringsOffset,rfl⟩ := readSection_ok one
  obtain ⟨types,_,one,done⟩ := reader_bind_ok.mp done
  obtain ⟨typesSize,typesOffset,rfl⟩ := readSection_ok one
  obtain ⟨protos,_,one,done⟩ := reader_bind_ok.mp done
  obtain ⟨protosSize,protosOffset,rfl⟩ := readSection_ok one
  obtain ⟨fields,_,one,done⟩ := reader_bind_ok.mp done
  obtain ⟨fieldsSize,fieldsOffset,rfl⟩ := readSection_ok one
  obtain ⟨methods,_,one,done⟩ := reader_bind_ok.mp done
  obtain ⟨methodsSize,methodsOffset,rfl⟩ := readSection_ok one
  obtain ⟨classes,_,one,done⟩ := reader_bind_ok.mp done
  obtain ⟨classesSize,classesOffset,rfl⟩ := readSection_ok one
  obtain ⟨data,_,one,done⟩ := reader_bind_ok.mp done
  obtain ⟨rfl,-⟩ := reader_pure_ok.mp done
  cases t with
  | strings => exact ⟨stringsSize,stringsOffset⟩
  | types => exact ⟨typesSize,typesOffset⟩
  | protos => exact ⟨protosSize,protosOffset⟩
  | fields => exact ⟨fieldsSize,fieldsOffset⟩
  | methods => exact ⟨methodsSize,methodsOffset⟩
  | classes => exact ⟨classesSize,classesOffset⟩

-- A table is let pass when all its rows are inside the file.

open Container (checkTable checkTables)

theorem checkTable_ok {available rowSize : Nat} {t : Table} {s : Section} : checkTable available t s rowSize = .ok () ↔
    ∀ i < s.size.toNat, s.offset.toNat + i * rowSize + rowSize ≤ available := by
  unfold checkTable
  rw [ite_eq_right_iff]
  constructor
  · intro passed i below
    have room : s.offset.toNat + s.size.toNat * rowSize ≤ available := by
      by_contra short
      refine reject_ne_ok (passed ?_)
      rw [Bool.and_eq_true,decide_eq_true_eq,decide_eq_true_eq]
      omega
    have upto := Nat.mul_le_mul_right rowSize below
    rw [Nat.succ_mul] at upto
    omega
  · intro inside failed
    rw [Bool.and_eq_true,decide_eq_true_eq,decide_eq_true_eq] at failed
    have last := inside (s.size.toNat - 1) (by omega)
    have all : (s.size.toNat - 1) * rowSize + rowSize = s.size.toNat * rowSize := by
      rw [← Nat.succ_mul,Nat.succ_eq_add_one,Nat.sub_add_cancel failed.1]
    omega

theorem checkTables_ok {available : Nat} {h : Header} : checkTables available h = .ok () ↔
    ∀ t, checkTable available t (h.table t) t.rowSize = .ok () := by
  unfold checkTables
  simp only [bind_eq_ok]
  constructor
  · intro passed t
    obtain ⟨⟨⟩,strings,⟨⟩,types,⟨⟩,protos,⟨⟩,fields,⟨⟩,methods,classes⟩ := passed
    cases t <;> assumption
  · intro all
    exact ⟨(),all .strings,(),all .types,(),all .protos,(),all .fields,(),all .methods,all .classes⟩

theorem tables_inside {h : Header} (done : Header.read.valueAt bytes 0 = .ok h) : checkTables bytes.size h = .ok () ↔
    ∀ (t : Table) (i : Nat), i < t.count bytes → t.rowAt bytes i + t.rowSize ≤ bytes.size := by
  rw [checkTables_ok]
  apply forall_congr'
  intro t
  rw [checkTable_ok,(header_tables done t).1,(header_tables done t).2]
  rfl

end Restack
