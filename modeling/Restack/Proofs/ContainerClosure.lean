import Mathlib
import Restack.Proofs.Bytes.Written
import Restack.Proofs.Container.Answers

namespace Restack

-- An accepted container is closed under lookup. Every row number below the one its header declares leads to what the
-- file stores there, every other is refused, and nothing inside leads out of a table.

namespace Container

-- A lookup by row number past its table is refused, and its answers are what the rows hold.
structure Answers (bytes : Bytes) (t : Table) (number : ι → Nat) (lookup : ι → Except Fault α) (Holds : Nat → α → Prop) : Prop where
  past : ∀ i, t.count bytes ≤ number i → lookup i = reject (.outOfRange t (number i) (t.count bytes))
  gives : ∀ i a, lookup i = .ok a ↔ Holds (number i) a

structure InBounds (c : Container) : Prop where
  types : ∀ text ∈ c.types, text.toNat < c.strings.size
  protos : ∀ row ∈ c.protos, row.shorty.toNat < c.strings.size ∧ row.result.toNat < c.types.size
  fields : ∀ row ∈ c.fields, row.owner.toNat < c.types.size ∧ row.type.toNat < c.types.size ∧ row.name.toNat < c.strings.size
  methods : ∀ row ∈ c.methods, row.owner.toNat < c.types.size ∧ row.proto.toNat < c.protos.size ∧ row.name.toNat < c.strings.size
  classes : ∀ row ∈ c.classes, row.type.toNat < c.types.size ∧
    (∀ index, optionalIndex row.superclass = some index → index.toNat < c.types.size) ∧
      ∀ index, optionalIndex row.sourceFile = some index → index.toNat < c.strings.size

structure Closed (bytes : Bytes) (c : Container) : Prop where
  declared : ∀ t, (c.header.table t).size.toNat = t.count bytes
  strings : Answers bytes .strings UInt32.toNat c.string (StringAt bytes)
  types : Answers bytes .types UInt32.toNat c.type (TypeAt bytes)
  protos : Answers bytes .protos UInt32.toNat c.proto (ProtoAt bytes)
  fields : Answers bytes .fields UInt32.toNat c.field (FieldAt bytes)
  methods : Answers bytes .methods UInt32.toNat c.method (MethodAt bytes)
  classes : Answers bytes .classes id c.classDef (ClassAt bytes)
  typeLists : ∀ offset types, c.typeList offset = .ok types ↔ TypesAt bytes offset.toNat types
  stringThere : ∀ i, i.toNat < Table.strings.count bytes → ∃ text, c.string i = .ok text
  typeThere : ∀ i, i.toNat < Table.types.count bytes → ∃ descriptor, c.type i = .ok descriptor
  fieldThere : ∀ i, i.toNat < Table.fields.count bytes → ∃ f, c.field i = .ok f
  -- what refers to a type list fails as the list does
  protoFails : ∀ i, i.toNat < Table.protos.count bytes → ∀ fault, c.proto i = .error fault ↔
    c.typeList (UInt32.ofNat (Table.protos.entry bytes i.toNat 8 4)) = .error fault
  methodFails : ∀ i, i.toNat < Table.methods.count bytes → ∀ fault, c.method i = .error fault ↔
    c.typeList (UInt32.ofNat (Table.protos.entry bytes (Table.methods.entry bytes i.toNat 2 2) 8 4)) = .error fault
  classFails : ∀ i < Table.classes.count bytes, ∀ fault, c.classDef i = .error fault ↔
    c.typeList (UInt32.ofNat (Table.classes.entry bytes i 12 4)) = .error fault
  inBounds : InBounds c

variable {bytes : Bytes} {c : Container}

theorem Opened.inBounds (opened : Opened bytes c) : InBounds c where
  types text member := by
    obtain ⟨i,found⟩ := Array.mem_iff_getElem?.mp member
    exact (opened.type_rows.2 i text found).2
  protos row member := by
    obtain ⟨i,found⟩ := Array.mem_iff_getElem?.mp member
    exact (opened.proto_rows.2 i row found).2.2.2
  fields row member := by
    obtain ⟨i,found⟩ := Array.mem_iff_getElem?.mp member
    exact (opened.field_rows.2 i row found).2.2.2
  methods row member := by
    obtain ⟨i,found⟩ := Array.mem_iff_getElem?.mp member
    exact (opened.method_rows.2 i row found).2.2.2
  classes row member := by
    obtain ⟨i,found⟩ := Array.mem_iff_getElem?.mp member
    exact (opened.class_rows.2 i row found).2

theorem answers_of_row {t : Table} {number : ι → Nat} {lookup : ι → Except Fault β} {Holds : Nat → β → Prop} {rows : Array α}
    {rest : ι → α → Except Fault β} (size : rows.size = t.count bytes) (asks : ∀ i, lookup i = row t rows (number i) >>= rest i)
    (gives : ∀ i a, lookup i = .ok a ↔ Holds (number i) a) : Answers bytes t number lookup Holds where
  past i past := by
    rw [← size] at past ⊢
    rw [asks i,row_past past]
    rfl
  gives := gives

theorem Opened.closed (opened : Opened bytes c) : c.Closed bytes where
  declared t := (header_tables opened.header t).1
  strings := answers_of_row opened.string_rows.1 (fun _ => (bind_pure _).symm) fun _ _ => opened.string_ok
  types := answers_of_row opened.type_rows.1 (fun _ => rfl) fun _ _ => opened.type_ok
  protos := answers_of_row opened.proto_rows.1 (fun _ => rfl) fun _ _ => opened.proto_ok
  fields := answers_of_row opened.field_rows.1 (fun _ => rfl) fun _ _ => opened.field_ok
  methods := answers_of_row opened.method_rows.1 (fun _ => rfl) fun _ _ => opened.method_ok
  classes := answers_of_row opened.class_rows.1 (fun _ => rfl) fun _ _ => opened.class_ok
  typeLists _ _ := opened.typeList_ok
  stringThere _ below := string_there (opened.string_rows.1.symm ▸ below)
  typeThere _ below := opened.type_there (opened.type_rows.1.symm ▸ below)
  fieldThere _ below := opened.field_there (opened.field_rows.1.symm ▸ below)
  protoFails _ below _ := opened.proto_error (opened.proto_rows.1.symm ▸ below)
  methodFails _ below _ := opened.method_error (opened.method_rows.1.symm ▸ below)
  classFails _ below _ := opened.class_error (opened.class_rows.1.symm ▸ below)
  inBounds := opened.inBounds

end Container

theorem accepted_container_closed (bytes : Bytes) :
    (∀ c, Container.ofBytes bytes = .ok c → c.Closed bytes) ∧
    ∀ h, Header.read.valueAt bytes 0 = .ok h → Container.checkTables bytes.size h = .ok () →
      (∀ (t : Table) (i : Nat), i < t.count bytes → t.rowAt bytes i + t.rowSize ≤ bytes.size) ∧
      ∀ fault, Container.ofBytes bytes = .error fault → fault.cause.Ended → ∃ i < Table.strings.count bytes,
        readString.inContext (.row .strings i) bytes (Table.strings.entry bytes i 0 4) = .error fault := by
  refine ⟨fun c done => (Container.ofBytes_ok done).closed,?_⟩
  intro h header inside
  exact ⟨(tables_inside header).mp inside,fun fault => Container.ofBytes_ended header inside⟩

-- Two classes with a field, a method that takes a class and the names of all of them.
def smallFile : Bytes :=
  let words (numbers : List Nat) := numbers.flatMap (lowBytes 4)
  let name (text : List UInt8) := UInt8.ofNat text.length :: text ++ [0]
  ([0x64,0x65,0x78,0x0a, 0x30,0x33,0x35,0] ++ List.replicate 24 0 ++ words [0x106,0x70,0x12345678,0,0,0] ++
    words [5,0x70, 3,0x84, 1,0x90, 1,0x9c, 1,0xa4, 2,0xac, 0,0] ++
    words [0xf2,0xf7,0xfc,0xff,0x103] ++ words [0,1,2] ++ words [3,2,0xec] ++ words [1,4] ++ words [0,4] ++
    words [0,1,0xffffffff,0,0xffffffff,0,0,0] ++ words [1,1,0,0xec,0xffffffff,0,0,0] ++
    words [1] ++ [1,0] ++ name [0x4c,0x41,0x3b] ++ name [0x4c,0x42,0x3b] ++ name [0x56] ++ name [0x56,0x4c] ++ name [0x78]).toArray

-- The same with its last name past the end.
def cutFile : Bytes := smallFile.set! 0x80 0x06

def endsEarly : Except Fault α → Bool
  | .error ⟨.malformed (.endOfStream _ _),_⟩ => true
  | _ => false

theorem accepted_container_closed_smallFile :
    (∃ c, Container.ofBytes smallFile = .ok c ∧ c.Closed smallFile ∧ MethodAt smallFile 0 ⟨"LA;","x",⟨"VL","V",["LB;"]⟩⟩) ∧
    ∃ fault, Container.ofBytes cutFile = .error fault ∧ ∃ i < Table.strings.count cutFile,
      readString.inContext (.row .strings i) cutFile (Table.strings.entry cutFile i 0 4) = .error fault := by
  constructor
  · have opens : ((Container.ofBytes smallFile).toOption.bind fun c => (c.method 0).toOption) =
        some ⟨"LA;","x",⟨"VL","V",["LB;"]⟩⟩ := by decide +kernel
    obtain ⟨c,done,told⟩ := Option.bind_eq_some_iff.mp opens
    have done := toOption_eq_some.mp done
    have closed := (accepted_container_closed smallFile).1 c done
    exact ⟨c,done,closed,(closed.methods.gives 0 _).mp (toOption_eq_some.mp told)⟩
  · have inside : ((Header.read.valueAt cutFile 0).toOption.bind fun h => (Container.checkTables cutFile.size h).toOption) =
        some () := by decide +kernel
    obtain ⟨h,header,passed⟩ := Option.bind_eq_some_iff.mp inside
    have header := toOption_eq_some.mp header
    have failed : endsEarly (Container.ofBytes cutFile) = true := by decide +kernel
    have ends := ((accepted_container_closed cutFile).2 h header (toOption_eq_some.mp passed)).2
    generalize Container.ofBytes cutFile = opened at failed ends ⊢
    unfold endsEarly at failed
    split at failed
    · exact ⟨_,rfl,ends _ rfl trivial⟩
    · cases failed

end Restack
