import Mathlib
import Restack.Proofs.Container.Tables

namespace Restack

-- An opened container answers for its file: what is looked up by a row number is what the bytes of that row lead to.

theorem bind_pure_error {x : Except Fault α} {g : α → β} {fault : Fault} :
    (x >>= fun a => pure (g a)) = .error fault ↔ x = .error fault := by
  cases x <;> simp [bind,Except.bind,pure,Except.pure]

theorem StringStored.unique {bytes : Bytes} {place : Nat} {text other : String} (one : StringStored bytes place text)
    (two : StringStored bytes place other) : text = other :=
  Except.ok.inj ((readString_ok.mpr one).symm.trans (readString_ok.mpr two))

theorem ClassRowAt.unique {bytes : Bytes} {place : Nat} {row other : ClassRow} (one : ClassRowAt bytes place row)
    (two : ClassRowAt bytes place other) : row = other := by
  cases row
  cases other
  rw [ClassRow.mk.injEq]
  simp only [← UInt32.toNat_inj]
  exact ⟨one.type.trans two.type.symm,one.accessFlags.trans two.accessFlags.symm,one.superclass.trans two.superclass.symm,
    one.interfaces.trans two.interfaces.symm,one.sourceFile.trans two.sourceFile.symm,one.annotations.trans two.annotations.symm,
    one.classData.trans two.classData.symm,one.staticValues.trans two.staticValues.symm⟩

namespace Container

open Reader (valueAt_ok u2_ok u4_ok u2_there u4_there timesFrom_ok)

variable {bytes : Bytes} {c : Container} {index : UInt32} {fault : Fault}

theorem row_ok {t : Table} {rows : Array α} {i : Nat} {a : α} : row t rows i = .ok a ↔ rows[i]? = some a := by
  unfold row
  cases rows[i]? <;> simp

theorem row_past {t : Table} {rows : Array α} {i : Nat} (past : rows.size ≤ i) : row t rows i = reject (.outOfRange t i rows.size) := by
  rw [row,Array.getElem?_eq_none past]

theorem row_below {rows : Array α} {i : Nat} (below : i < rows.size) : ∃ a, rows[i]? = some a := ⟨rows[i],Array.getElem?_eq_getElem below⟩

theorem string_there (below : index.toNat < c.strings.size) : ∃ text, c.string index = .ok text := by
  obtain ⟨text,found⟩ := row_below below
  exact ⟨text,row_ok.mpr found⟩

def listed (c : Container) (offset : UInt32) : Reader String := do
  let index ← Reader.u2
  within (.typeList offset.toNat) (c.type index.toUInt32)

theorem typeList_eq (c : Container) {offset : UInt32} (nonzero : offset ≠ 0) :
    c.typeList offset = (Reader.u4 >>= fun count => Reader.times count.toNat (listed c offset)).valueAt c.bytes offset.toNat :=
  if_neg nonzero

theorem listed_moves {offset : UInt32} {start stop : Nat} {descriptor : String}
    (done : listed c offset bytes start = .ok (descriptor,stop)) : stop = start + 2 := by
  obtain ⟨index,middle,read,named⟩ := reader_bind_ok.mp done
  obtain ⟨-,-,rfl⟩ := u2_ok.mp read
  exact (reader_lift_ok.mp named).2.symm

namespace Opened

theorem string_ok (opened : Opened bytes c) {text : String} : c.string index = .ok text ↔ StringAt bytes index.toNat text := by
  obtain ⟨size,each⟩ := opened.string_rows
  rw [string,row_ok,StringAt,← size]
  constructor
  · intro found
    exact ⟨(Array.getElem?_eq_some_iff.mp found).1,each _ _ found⟩
  · intro stored
    obtain ⟨below,named⟩ := stored
    obtain ⟨other,found⟩ := row_below below
    rw [found,(each _ _ found).unique named]

theorem type_eq (opened : Opened bytes c) {text : UInt32} (found : c.types[index.toNat]? = some text) : c.type index = c.string text := by
  obtain ⟨named,told⟩ := row_below (opened.type_rows.2 _ _ found).2
  rw [type,row_ok.mpr found,ok_bind,typeName,found,string,row_ok.mpr told]
  simp only [told,Option.getD_some]
  rfl

theorem type_there (opened : Opened bytes c) (below : index.toNat < c.types.size) : ∃ descriptor, c.type index = .ok descriptor := by
  obtain ⟨text,found⟩ := row_below below
  rw [opened.type_eq found]
  exact string_there (opened.type_rows.2 _ _ found).2

theorem type_ok (opened : Opened bytes c) {descriptor : String} :
    c.type index = .ok descriptor ↔ TypeAt bytes index.toNat descriptor := by
  obtain ⟨size,each⟩ := opened.type_rows
  constructor
  · intro done
    obtain ⟨text,found,-⟩ := bind_eq_ok.mp done
    have found := row_ok.mp found
    rw [opened.type_eq found,opened.string_ok,(each _ _ found).1] at done
    exact ⟨size ▸ (Array.getElem?_eq_some_iff.mp found).1,done⟩
  · intro stored
    obtain ⟨below,named⟩ := stored
    obtain ⟨text,found⟩ := row_below (size.symm ▸ below)
    rw [opened.type_eq found,opened.string_ok,(each _ _ found).1]
    exact named

theorem listed_ok (opened : Opened bytes c) {offset : UInt32} {start stop : Nat} {descriptor : String} :
    listed c offset bytes start = .ok (descriptor,stop) ↔
      start + 2 ≤ bytes.size ∧ TypeAt bytes (wordAt bytes start 2) descriptor ∧ start + 2 = stop := by
  unfold listed
  simp only [reader_bind_ok,reader_lift_ok,within_eq_ok,opened.type_ok,UInt16.toNat_toUInt32]
  constructor
  · intro done
    obtain ⟨index,middle,read,named,rfl⟩ := done
    obtain ⟨inside,word,rfl⟩ := u2_ok.mp read
    exact ⟨inside,word ▸ named,rfl⟩
  · intro stored
    obtain ⟨inside,named,rfl⟩ := stored
    obtain ⟨index,read,word⟩ := u2_there inside
    exact ⟨index,start + 2,read,word ▸ named,rfl⟩

theorem typeList_ok (opened : Opened bytes c) {offset : UInt32} {types : List String} :
    c.typeList offset = .ok types ↔ TypesAt bytes offset.toNat types := by
  unfold TypesAt
  by_cases zero : offset = 0
  · subst zero
    rw [if_pos UInt32.toNat_zero,typeList,if_pos rfl,Except.ok.injEq,eq_comm]
  · have nonzero : offset.toNat ≠ 0 := fun same => zero (UInt32.toNat_inj.mp same)
    have rows : ∀ count, (Reader.times count (listed c offset)).valueAt bytes (offset.toNat + 4) = .ok types ↔
        types.length = count ∧ ∀ j descriptor, types[j]? = some descriptor →
          (listed c offset).valueAt bytes (offset.toNat + 4 + j * 2) = .ok descriptor := fun count =>
      timesFrom_ok fun _ _ _ _ _ => listed_moves
    rw [typeList_eq c zero,if_neg nonzero,valueAt_ok,opened.kept]
    constructor
    · intro done
      obtain ⟨stop,done⟩ := done
      obtain ⟨count,middle,counted,done⟩ := reader_bind_ok.mp done
      obtain ⟨inside,word,rfl⟩ := u4_ok.mp counted
      obtain ⟨long,each⟩ := (rows count.toNat).mp (valueAt_ok.mpr ⟨stop,done⟩)
      have stored : ∀ j descriptor, types[j]? = some descriptor → offset.toNat + 4 + j * 2 + 2 ≤ bytes.size ∧
          TypeAt bytes (wordAt bytes (offset.toNat + 4 + j * 2) 2) descriptor := by
        intro j descriptor found
        obtain ⟨stop,read⟩ := valueAt_ok.mp (each j descriptor found)
        obtain ⟨room,named,-⟩ := opened.listed_ok.mp read
        exact ⟨room,named⟩
      refine ⟨?_,word ▸ long.symm,fun j descriptor found => (stored j descriptor found).2⟩
      -- the last of them says how far the list goes
      by_cases none : types.length = 0
      · omega
      · have last := (stored (types.length - 1) _ (List.getElem?_eq_getElem (by omega))).1
        omega
    · intro stored
      obtain ⟨inside,word,each⟩ := stored
      obtain ⟨count,counted,told⟩ := u4_there (Nat.le_of_add_right_le inside)
      have read : (Reader.times count.toNat (listed c offset)).valueAt bytes (offset.toNat + 4) = .ok types := by
        apply (rows _).mpr
        refine ⟨word.symm.trans told.symm,?_⟩
        intro j descriptor found
        have short := (List.getElem?_eq_some_iff.mp found).1
        exact valueAt_ok.mpr ⟨_,opened.listed_ok.mpr ⟨by omega,each j descriptor found,rfl⟩⟩
      obtain ⟨stop,read⟩ := valueAt_ok.mp read
      exact ⟨stop,reader_bind_ok.mpr ⟨count,_,counted,read⟩⟩

theorem proto_ok (opened : Opened bytes c) {p : Proto} : c.proto index = .ok p ↔ ProtoAt bytes index.toNat p := by
  obtain ⟨size,each⟩ := opened.proto_rows
  unfold proto
  simp only [bind_eq_ok,row_ok,opened.string_ok,opened.type_ok,opened.typeList_ok,pure_eq_ok]
  constructor
  · intro done
    obtain ⟨row,found,shorty,named,result,typed,parameters,listed,rfl⟩ := done
    obtain ⟨first,second,third,-⟩ := each _ _ found
    rw [first] at named
    rw [second] at typed
    rw [third] at listed
    exact ⟨size ▸ (Array.getElem?_eq_some_iff.mp found).1,named,typed,listed⟩
  · intro stored
    obtain ⟨row,found⟩ := row_below (size.symm ▸ stored.below)
    obtain ⟨first,second,third,-⟩ := each _ _ found
    refine ⟨row,found,p.shorty,?_,p.result,?_,p.parameters,?_,rfl⟩
    · exact first ▸ stored.shorty
    · exact second ▸ stored.result
    · exact third ▸ stored.parameters

theorem proto_error (opened : Opened bytes c) (below : index.toNat < c.protos.size) : c.proto index = .error fault ↔
    c.typeList (UInt32.ofNat (Table.protos.entry bytes index.toNat 8 4)) = .error fault := by
  obtain ⟨row,found⟩ := row_below below
  obtain ⟨-,-,place,named,typed⟩ := opened.proto_rows.2 _ _ found
  obtain ⟨shorty,told⟩ := string_there named
  obtain ⟨result,shown⟩ := opened.type_there typed
  rw [proto,row_ok.mpr found,ok_bind,told,ok_bind,shown,ok_bind,bind_pure_error,← place,UInt32.ofNat_toNat]

theorem field_ok (opened : Opened bytes c) {f : FieldName} : c.field index = .ok f ↔ FieldAt bytes index.toNat f := by
  obtain ⟨size,each⟩ := opened.field_rows
  unfold field
  simp only [bind_eq_ok,row_ok,opened.string_ok,opened.type_ok,pure_eq_ok,UInt16.toNat_toUInt32]
  constructor
  · intro done
    obtain ⟨row,found,owner,owned,name,named,type,typed,rfl⟩ := done
    obtain ⟨first,second,third,-⟩ := each _ _ found
    rw [first] at owned
    rw [second] at typed
    rw [third] at named
    exact ⟨size ▸ (Array.getElem?_eq_some_iff.mp found).1,owned,typed,named⟩
  · intro stored
    obtain ⟨row,found⟩ := row_below (size.symm ▸ stored.below)
    obtain ⟨first,second,third,-⟩ := each _ _ found
    refine ⟨row,found,f.owner,?_,f.name,?_,f.type,?_,rfl⟩
    · exact first ▸ stored.owner
    · exact third ▸ stored.name
    · exact second ▸ stored.type

theorem field_there (opened : Opened bytes c) (below : index.toNat < c.fields.size) : ∃ f, c.field index = .ok f := by
  obtain ⟨row,found⟩ := row_below below
  obtain ⟨-,-,-,owned,typed,named⟩ := opened.field_rows.2 _ _ found
  rw [← UInt16.toNat_toUInt32] at owned typed
  obtain ⟨owner,one⟩ := opened.type_there owned
  obtain ⟨name,two⟩ := string_there named
  obtain ⟨type,three⟩ := opened.type_there typed
  rw [field,row_ok.mpr found,ok_bind,one,ok_bind,two,ok_bind,three,ok_bind]
  exact ⟨_,rfl⟩

theorem method_ok (opened : Opened bytes c) {m : MethodName} : c.method index = .ok m ↔ MethodAt bytes index.toNat m := by
  obtain ⟨size,each⟩ := opened.method_rows
  unfold method
  simp only [bind_eq_ok,row_ok,opened.string_ok,opened.type_ok,opened.proto_ok,pure_eq_ok,UInt16.toNat_toUInt32]
  constructor
  · intro done
    obtain ⟨row,found,owner,owned,name,named,proto,shaped,rfl⟩ := done
    obtain ⟨first,second,third,-⟩ := each _ _ found
    rw [first] at owned
    rw [second] at shaped
    rw [third] at named
    exact ⟨size ▸ (Array.getElem?_eq_some_iff.mp found).1,owned,shaped,named⟩
  · intro stored
    obtain ⟨row,found⟩ := row_below (size.symm ▸ stored.below)
    obtain ⟨first,second,third,-⟩ := each _ _ found
    refine ⟨row,found,m.owner,?_,m.name,?_,m.proto,?_,rfl⟩
    · exact first ▸ stored.owner
    · exact third ▸ stored.name
    · exact second ▸ stored.proto

theorem method_error (opened : Opened bytes c) (below : index.toNat < c.methods.size) : c.method index = .error fault ↔
    c.typeList (UInt32.ofNat (Table.protos.entry bytes (Table.methods.entry bytes index.toNat 2 2) 8 4)) = .error fault := by
  obtain ⟨row,found⟩ := row_below below
  obtain ⟨-,shape,-,owned,shaped,named⟩ := opened.method_rows.2 _ _ found
  rw [← UInt16.toNat_toUInt32] at owned shaped shape
  obtain ⟨owner,one⟩ := opened.type_there owned
  obtain ⟨name,two⟩ := string_there named
  rw [method,row_ok.mpr found,ok_bind,one,ok_bind,two,ok_bind,bind_pure_error,opened.proto_error shaped,shape]

theorem optional_ok {lookup : UInt32 → Except Fault α} {Holds : Nat → α → Prop} (each : ∀ i a, lookup i = .ok a ↔ Holds i.toNat a)
    {value : Option α} : optional lookup index = .ok value ↔ OptionalAt Holds index.toNat value := by
  unfold optional optionalIndex
  by_cases absent : index = noIndex
  · rw [if_pos absent,absent]
    cases value <;> simp [OptionalAt]
  · have other : index.toNat ≠ noIndex.toNat := fun same => absent (UInt32.toNat_inj.mp same)
    rw [if_neg absent]
    cases value with
    | none => cases told : lookup index <;> simp [OptionalAt,other,told,Except.map]
    | some a =>
      simp only [OptionalAt,← each]
      cases told : lookup index <;> simp [other,Except.map]

theorem optional_there {lookup : UInt32 → Except Fault α} {size : Nat} (there : ∀ i : UInt32, i.toNat < size → ∃ a, lookup i = .ok a)
    (below : ∀ i, optionalIndex index = some i → i.toNat < size) : ∃ value, optional lookup index = .ok value := by
  unfold optional
  cases present : optionalIndex index with
  | none => exact ⟨none,rfl⟩
  | some i =>
    obtain ⟨a,told⟩ := there i (below i present)
    exact ⟨some a,by simp [told,Except.map]⟩

theorem class_ok (opened : Opened bytes c) {i : Nat} {d : ClassDef} : c.classDef i = .ok d ↔ ClassAt bytes i d := by
  obtain ⟨size,each⟩ := opened.class_rows
  unfold classDef
  simp only [bind_eq_ok,row_ok,optional_ok fun _ _ => opened.type_ok,optional_ok fun _ _ => opened.string_ok,opened.type_ok,
    opened.typeList_ok,pure_eq_ok]
  constructor
  · intro done
    obtain ⟨row,found,superclass,parent,sourceFile,source,descriptor,typed,interfaces,listed,rfl⟩ := done
    have words := (each _ _ found).1
    rw [words.superclass] at parent
    rw [words.sourceFile] at source
    rw [words.type] at typed
    rw [words.interfaces] at listed
    exact ⟨size ▸ (Array.getElem?_eq_some_iff.mp found).1,words,typed,rfl,parent,listed,source⟩
  · intro stored
    obtain ⟨row,found⟩ := row_below (size.symm ▸ stored.below)
    have words := (each _ _ found).1
    cases stored.row.unique words
    refine ⟨_,found,d.superclass,?_,d.sourceFile,?_,d.descriptor,?_,d.interfaces,?_,?_⟩
    · exact words.superclass ▸ stored.superclass
    · exact words.sourceFile ▸ stored.sourceFile
    · exact words.type ▸ stored.descriptor
    · exact words.interfaces ▸ stored.interfaces
    · rw [← stored.accessFlags]

theorem class_error (opened : Opened bytes c) {i : Nat} (below : i < c.classes.size) : c.classDef i = .error fault ↔
    c.typeList (UInt32.ofNat (Table.classes.entry bytes i 12 4)) = .error fault := by
  obtain ⟨row,found⟩ := row_below below
  obtain ⟨words,typed,parent,source⟩ := opened.class_rows.2 _ _ found
  obtain ⟨superclass,one⟩ := optional_there (fun _ => opened.type_there) parent
  obtain ⟨sourceFile,two⟩ := optional_there (fun _ => string_there) source
  obtain ⟨descriptor,three⟩ := opened.type_there typed
  have place : row.interfaces.toNat = Table.classes.entry bytes i 12 4 := words.interfaces
  rw [classDef,row_ok.mpr found,ok_bind,one,ok_bind,two,ok_bind,three,ok_bind,bind_pure_error,← place,UInt32.ofNat_toNat]

end Opened

end Container

end Restack
