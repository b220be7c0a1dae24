import Mathlib
import Restack.Proofs.Container.Contents
import Restack.Proofs.Container.Format

namespace Restack

-- Opening a container. Each table holds what its rows in the file say, and every index in it is in range. Once the
-- tables are known to lie in the file only the data of a string can still come to an end.

def Cause.Ended : Cause → Prop
  | .malformed (.endOfStream _ _) => True
  | .malformed (.shortBuffer _ _) => True
  | _ => False

def Cause.Told (cause : Cause) : Prop := cause.Stored ∧ ¬cause.Ended

theorem reject_told {cause : Malformed} (there : ¬(Cause.malformed cause).Ended) : Faults Cause.Told (reject cause : Except Fault α) := by
  intro fault failed
  cases failed
  exact ⟨⟨cause,rfl⟩,there⟩

namespace Reader

variable {α β : Type} {r : Reader α} {width : Nat}

-- A row of so many bytes. When they are there it is given, or refused for what they say.
structure Row (width : Nat) (r : Reader α) : Prop where
  moves : ∀ {bytes start a stop}, r bytes start = .ok (a,stop) → stop = start + width
  told : ∀ {bytes start fault}, start + width ≤ bytes.size → r bytes start = .error fault → fault.cause.Told
  stored : r.InContainer

theorem pure_row (a : α) : Row 0 (Pure.pure a : Reader α) where
  moves done := (reader_pure_ok.mp done).2.symm
  told _ failed := nomatch failed
  stored := pure_inContainer a

theorem offset_row {f : Nat → Reader β} (each : ∀ n, Row width (f n)) : Row width (offset >>= f) where
  moves {_ start} _ _ done := (each start).moves done
  told {_ start} _ inside failed := (each start).told inside failed
  stored := offset_inContainer.bind fun n => (each n).stored

theorem lift_row {x : Except Fault α} (told : Restack.Faults Cause.Told x) : Row 0 (liftM x : Reader α) where
  moves done := (reader_lift_ok.mp done).2.symm
  told {bytes start fault} _ failed := lift_faults told bytes start fault failed
  stored := lift_inContainer fun fault failed => (told fault failed).1

theorem Row.bind {f : α → Reader β} {more : Nat} (first : Row width r) (rest : ∀ a, Row more (f a)) : Row (more + width) (r >>= f) where
  moves done := by
    obtain ⟨a,middle,one,two⟩ := reader_bind_ok.mp done
    have here := first.moves one
    have there := (rest a).moves two
    omega
  told {bytes start fault} inside failed := by
    rcases bind_error.mp failed with one | ⟨a,middle,one,two⟩
    · exact first.told (by omega) one
    · have here := first.moves one
      exact (rest a).told (by omega) two
  stored := first.stored.bind fun a => (rest a).stored

theorem word_row (format : WordFormat) (width : Nat) : Row width (word format width) where
  moves done := (word_ok.mp done).2.2.symm
  told {bytes start fault} inside failed := by
    rw [word,if_neg (Nat.not_lt.mpr inside)] at failed
    cases failed
  stored := word_inContainer format width

theorem u2_row : Row 2 u2 := (word_row .u2 2).bind fun _ => pure_row _

theorem u4_row : Row 4 u4 := (word_row .u4 4).bind fun _ => pure_row _

end Reader

namespace Container

open Reader (Row valueAt_ok valueAt_error offset_bind u2_bind u4_bind u4_there elsewhere_ok elsewhere_error pure_row offset_row lift_row
  u2_row u4_row timesFrom timesFrom_ok timesFrom_error)

variable {bytes : Bytes} {start stop i : Nat} {fault : Fault}

theorem checkIndex_ok {t : Table} {index size offset : Nat} : checkIndex t index size offset = .ok () ↔ index < size := by
  unfold checkIndex
  by_cases below : index < size
  · simp [below]
  · simp [below]

theorem checkIndex_told (t : Table) (index size offset : Nat) : Faults Cause.Told (checkIndex t index size offset) := by
  unfold checkIndex
  split
  · exact faults_ok _ _
  · exact reject_told id

theorem checkOptionalIndex_ok {t : Table} {index : UInt32} {size offset : Nat} :
    checkOptionalIndex t index size offset = .ok () ↔ ∀ some, optionalIndex index = .some some → some.toNat < size := by
  unfold checkOptionalIndex
  cases optionalIndex index with
  | none => simp
  | some index => simp [checkIndex_ok]

theorem checkOptionalIndex_told (t : Table) (index : UInt32) (size offset : Nat) :
    Faults Cause.Told (checkOptionalIndex t index size offset) := by
  unfold checkOptionalIndex
  split
  · exact faults_ok _ _
  · exact checkIndex_told _ _ _ _

theorem stringRow_ok {text : String} (done : stringRow i bytes start = .ok (text,stop)) :
    StringStored bytes (wordAt bytes start 4) text ∧ stop = start + 4 := by
  obtain ⟨place,word,done⟩ := u4_bind done
  obtain ⟨told,rfl⟩ := elsewhere_ok.mp done
  obtain ⟨last,told⟩ := valueAt_ok.mp told
  rw [word] at told
  exact ⟨readString_ok.mp (valueAt_ok.mpr ⟨last,within_eq_ok.mp told⟩),rfl⟩

theorem stringRow_error (inside : start + 4 ≤ bytes.size) (failed : stringRow i bytes start = .error fault) :
    readString.inContext (.row .strings i) bytes (wordAt bytes start 4) = .error fault := by
  obtain ⟨n,read,word⟩ := u4_there inside
  rcases Reader.bind_error.mp failed with one | ⟨place,middle,one,two⟩
  · rw [read] at one
    cases one
  · rw [read] at one
    cases one
    rw [← word]
    exact elsewhere_error.mp two

theorem typeRow_row (strings : Array String) (i : Nat) : Row 4 (typeRow strings i) := by
  apply offset_row
  intro offset
  apply u4_row.bind
  intro index
  split
  · exact lift_row (reject_told id)
  · split
    · exact lift_row (reject_told id)
    · exact pure_row index

theorem typeRow_ok {strings : Array String} {index : UInt32} (done : typeRow strings i bytes start = .ok (index,stop)) :
    index.toNat = wordAt bytes start 4 ∧ index.toNat < strings.size := by
  unfold typeRow at done
  rw [offset_bind] at done
  obtain ⟨found,word,told⟩ := u4_bind done
  cases named : strings[found.toNat]? with
  | none =>
    rw [named] at told
    cases told
  | some text =>
    rw [named] at told
    dsimp only at told
    split at told
    · cases told
    · obtain ⟨rfl,-⟩ := reader_pure_ok.mp told
      exact ⟨word,(Array.getElem?_eq_some_iff.mp named).1⟩

theorem checked_row {words : Reader α} {checks : α → Nat → Except Fault Unit} {context : Context} {width : Nat} (fixed : Row width words)
    (told : ∀ a offset, Faults Cause.Told (checks a offset)) :
    Row width (Reader.offset >>= fun offset => words >>= fun a =>
      (liftM (within context (checks a offset)) : Reader Unit) >>= fun _ => pure a) := by
  have rest : ∀ offset a, Row 0 ((liftM (within context (checks a offset)) : Reader Unit) >>= fun _ => pure a) := fun offset a =>
    (lift_row ((told a offset).within context)).bind fun _ => pure_row a
  apply offset_row
  intro offset
  have all := fixed.bind (rest offset)
  rwa [Nat.zero_add] at all

theorem checked_ok {words : Reader α} {checks : α → Nat → Except Fault Unit} {context : Context} {a : α}
    (done : (Reader.offset >>= fun offset => words >>= fun a =>
      (liftM (within context (checks a offset)) : Reader Unit) >>= fun _ => pure a) bytes start = .ok (a,stop)) :
    words bytes start = .ok (a,stop) ∧ checks a start = .ok () := by
  rw [offset_bind] at done
  obtain ⟨found,middle,read,done⟩ := reader_bind_ok.mp done
  obtain ⟨⟨⟩,last,checked,done⟩ := reader_bind_ok.mp done
  obtain ⟨passed,rfl⟩ := reader_lift_ok.mp checked
  obtain ⟨rfl,rfl⟩ := reader_pure_ok.mp done
  exact ⟨read,within_eq_ok.mp passed⟩

theorem protoRow_row (strings types i : Nat) : Row 12 (protoRow strings types i) := by
  apply checked_row (u4_row.bind fun _ => u4_row.bind fun _ => u4_row.bind fun _ => pure_row _)
  intro row offset
  exact (checkIndex_told _ _ _ _).bind fun _ => checkIndex_told _ _ _ _

theorem protoRow_ok {strings types : Nat} {row : ProtoRow} (done : protoRow strings types i bytes start = .ok (row,stop)) :
    row.shorty.toNat = wordAt bytes start 4 ∧ row.result.toNat = wordAt bytes (start + 4) 4 ∧
      row.parameters.toNat = wordAt bytes (start + 8) 4 ∧ row.shorty.toNat < strings ∧ row.result.toNat < types := by
  obtain ⟨read,checked⟩ := checked_ok done
  obtain ⟨shorty,first,read⟩ := u4_bind read
  obtain ⟨result,second,read⟩ := u4_bind read
  obtain ⟨parameters,third,read⟩ := u4_bind read
  obtain ⟨rfl,-⟩ := reader_pure_ok.mp read
  obtain ⟨⟨⟩,named,typed⟩ := bind_eq_ok.mp checked
  exact ⟨first,second,third,checkIndex_ok.mp named,checkIndex_ok.mp typed⟩

-- Fields and methods are rows of two short indices and a name.

theorem fieldRow_row (strings types i : Nat) : Row 8 (fieldRow strings types i) := by
  apply checked_row (u2_row.bind fun _ => u2_row.bind fun _ => u4_row.bind fun _ => pure_row _)
  intro row offset
  exact (checkIndex_told _ _ _ _).bind fun _ => (checkIndex_told _ _ _ _).bind fun _ => checkIndex_told _ _ _ _

theorem fieldRow_ok {strings types : Nat} {row : FieldRow} (done : fieldRow strings types i bytes start = .ok (row,stop)) :
    row.owner.toNat = wordAt bytes start 2 ∧ row.type.toNat = wordAt bytes (start + 2) 2 ∧ row.name.toNat = wordAt bytes (start + 4) 4 ∧
      row.owner.toNat < types ∧ row.type.toNat < types ∧ row.name.toNat < strings := by
  obtain ⟨read,checked⟩ := checked_ok done
  obtain ⟨owner,first,read⟩ := u2_bind read
  obtain ⟨type,second,read⟩ := u2_bind read
  obtain ⟨name,third,read⟩ := u4_bind read
  obtain ⟨rfl,-⟩ := reader_pure_ok.mp read
  obtain ⟨⟨⟩,owned,checked⟩ := bind_eq_ok.mp checked
  obtain ⟨⟨⟩,typed,named⟩ := bind_eq_ok.mp checked
  exact ⟨first,second,third,checkIndex_ok.mp owned,checkIndex_ok.mp typed,checkIndex_ok.mp named⟩

theorem methodRow_row (strings types protos i : Nat) : Row 8 (methodRow strings types protos i) := by
  apply checked_row (u2_row.bind fun _ => u2_row.bind fun _ => u4_row.bind fun _ => pure_row _)
  intro row offset
  exact (checkIndex_told _ _ _ _).bind fun _ => (checkIndex_told _ _ _ _).bind fun _ => checkIndex_told _ _ _ _

theorem methodRow_ok {strings types protos : Nat} {row : MethodRow}
    (done : methodRow strings types protos i bytes start = .ok (row,stop)) :
    row.owner.toNat = wordAt bytes start 2 ∧ row.proto.toNat = wordAt bytes (start + 2) 2 ∧ row.name.toNat = wordAt bytes (start + 4) 4 ∧
      row.owner.toNat < types ∧ row.proto.toNat < protos ∧ row.name.toNat < strings := by
  obtain ⟨read,checked⟩ := checked_ok done
  obtain ⟨owner,first,read⟩ := u2_bind read
  obtain ⟨proto,second,read⟩ := u2_bind read
  obtain ⟨name,third,read⟩ := u4_bind read
  obtain ⟨rfl,-⟩ := reader_pure_ok.mp read
  obtain ⟨⟨⟩,owned,checked⟩ := bind_eq_ok.mp checked
  obtain ⟨⟨⟩,shaped,named⟩ := bind_eq_ok.mp checked
  exact ⟨first,second,third,checkIndex_ok.mp owned,checkIndex_ok.mp shaped,checkIndex_ok.mp named⟩

theorem classRow_row (strings : Array String) (types : Array UInt32) (i : Nat) : Row 32 (classRow strings types i) := by
  have words : Row 32 ClassRow.read := u4_row.bind fun _ => u4_row.bind fun _ => u4_row.bind fun _ => u4_row.bind fun _ =>
    u4_row.bind fun _ => u4_row.bind fun _ => u4_row.bind fun _ => u4_row.bind fun _ => pure_row _
  apply checked_row words
  intro row offset
  exact (checkIndex_told _ _ _ _).bind fun _ => (checkOptionalIndex_told _ _ _ _).bind fun _ => checkOptionalIndex_told _ _ _ _

theorem readClassRow_ok {row : ClassRow} (done : ClassRow.read bytes start = .ok (row,stop)) : ClassRowAt bytes start row := by
  obtain ⟨_,type,done⟩ := u4_bind done
  obtain ⟨_,accessFlags,done⟩ := u4_bind done
  obtain ⟨_,superclass,done⟩ := u4_bind done
  obtain ⟨_,interfaces,done⟩ := u4_bind done
  obtain ⟨_,sourceFile,done⟩ := u4_bind done
  obtain ⟨_,annotations,done⟩ := u4_bind done
  obtain ⟨_,classData,done⟩ := u4_bind done
  obtain ⟨_,staticValues,done⟩ := u4_bind done
  obtain ⟨rfl,-⟩ := reader_pure_ok.mp done
  exact ⟨type,accessFlags,superclass,interfaces,sourceFile,annotations,classData,staticValues⟩

theorem classRow_ok {strings : Array String} {types : Array UInt32} {row : ClassRow}
    (done : classRow strings types i bytes start = .ok (row,stop)) :
    ClassRowAt bytes start row ∧ row.type.toNat < types.size ∧
      (∀ index, optionalIndex row.superclass = some index → index.toNat < types.size) ∧
        ∀ index, optionalIndex row.sourceFile = some index → index.toNat < strings.size := by
  obtain ⟨read,checked⟩ := checked_ok done
  obtain ⟨⟨⟩,typed,checked⟩ := bind_eq_ok.mp checked
  obtain ⟨⟨⟩,parent,source⟩ := bind_eq_ok.mp checked
  exact ⟨readClassRow_ok read,checkIndex_ok.mp typed,checkOptionalIndex_ok.mp parent,checkOptionalIndex_ok.mp source⟩

-- Class definitions are rows too, and no two of them have one descriptor.

variable {strings : Array String} {types : Array UInt32} {rows all : Array ClassRow} {row : ClassRow} {index final : ClassIndex}
  {count : Nat} {d : String}

theorem lookup_others (index : ClassIndex) {e : String} (other : e ≠ d) :
    List.lookup e (index.filter fun entry => entry.1 ≠ d) = List.lookup e index := by
  induction index with
  | nil => rfl
  | cons entry rest ih =>
    by_cases same : entry.1 = d
    · have apart : (e == entry.1) = false := by simpa [same] using other
      rw [List.filter_cons_of_neg (by simpa using same),ih,List.lookup_cons,apart]
    · rw [List.filter_cons_of_pos (by simpa using same),List.lookup_cons,List.lookup_cons,ih]

theorem get_insert (index : ClassIndex) (d e : String) (n : Nat) :
    (index.insert d n).2.get? e = if e = d then some n else index.get? e := by
  unfold ClassIndex.insert ClassIndex.get?
  split
  · rename_i same
    rw [same,List.lookup_cons_self]
  · rename_i other
    rw [List.lookup_cons,beq_eq_false_iff_ne.mpr other,lookup_others index other]

-- The index binds each descriptor to the one definition among the rows that has it.
def Indexed (strings : Array String) (types : Array UInt32) (rows : Array ClassRow) (index : ClassIndex) : Prop :=
  ∀ d i, index.get? d = some i ↔ ∃ row, rows[i]? = some row ∧ typeName strings types row.type.toNat = d

theorem Indexed.push (indexed : Indexed strings types rows index) (fresh : index.get? (typeName strings types row.type.toNat) = none) :
    Indexed strings types (rows.push row) (index.insert (typeName strings types row.type.toNat) rows.size).2 := by
  intro e i
  rw [get_insert,Array.getElem?_push]
  by_cases named : e = typeName strings types row.type.toNat
  · -- No row so far has the new name, so only the last one answers to it.
    have others : ¬∃ old, rows[i]? = some old ∧ typeName strings types old.type.toNat = e := by
      rw [← indexed e i,named,fresh]
      simp
    rw [if_pos named]
    split
    · rename_i last
      simp [last,named]
    · rename_i earlier
      simp only [others,iff_false,Option.some.injEq]
      exact fun last => earlier last.symm
  · rw [if_neg named,indexed e i]
    split
    · rename_i last
      simp [last,Ne.symm named]
    · rfl

theorem classRows_step (done : classRows strings types rows index i (count + 1) bytes start = .ok ((all,final),stop)) :
    ∃ row middle, classRow strings types i bytes start = .ok (row,middle) ∧ index.get? (typeName strings types row.type.toNat) = none ∧
      classRows strings types (rows.push row) (index.insert (typeName strings types row.type.toNat) rows.size).2 (i + 1) count bytes middle =
        .ok ((all,final),stop) := by
  rw [classRows,offset_bind] at done
  obtain ⟨row,middle,one,done⟩ := reader_bind_ok.mp done
  obtain ⟨fresh,done⟩ := refusal_ok.mp done
  rw [Option.not_isSome_iff_eq_none] at fresh
  exact ⟨row,middle,one,fresh,done⟩

theorem classRows_ok (indexed : Indexed strings types rows index)
    (done : classRows strings types rows index i count bytes start = .ok ((all,final),stop)) :
    Indexed strings types all final ∧
      ∃ more, all = rows ++ more.toArray ∧ timesFrom (classRow strings types) i count bytes start = .ok (more,stop) := by
  induction count generalizing rows index i start with
  | zero =>
    cases done
    exact ⟨indexed,[],by simp,rfl⟩
  | succ count ih =>
    obtain ⟨row,middle,one,fresh,others⟩ := classRows_step done
    obtain ⟨whole,more,rfl,read⟩ := ih (indexed.push fresh) others
    exact ⟨whole,row :: more,by simp,reader_bind_ok.mpr ⟨row,middle,one,reader_bind_ok.mpr ⟨more,stop,read,rfl⟩⟩⟩

theorem classRows_error (failed : classRows strings types rows index i count bytes start = .error fault) :
    (∃ j < count, classRow strings types (i + j) bytes (start + j * 32) = .error fault) ∨ fault.cause.Told := by
  induction count generalizing rows index i start with
  | zero => cases failed
  | succ count ih =>
    rw [classRows,offset_bind] at failed
    rcases Reader.bind_error.mp failed with one | ⟨row,middle,one,failed⟩
    · exact .inl ⟨0,Nat.succ_pos _,by rwa [Nat.zero_mul]⟩
    · cases (classRow_row strings types i).moves one
      dsimp only at failed
      split at failed
      · exact .inr (reject_told id fault failed)
      · rcases ih failed with ⟨j,below,found⟩ | told
        · refine .inl ⟨j + 1,Nat.succ_lt_succ below,?_⟩
          have next : i + 1 + j = i + (j + 1) ∧ start + 32 + j * 32 = start + (j + 1) * 32 := by omega
          rwa [next.1,next.2] at found
        · exact .inr told

structure Opened (bytes : Bytes) (c : Container) : Prop where
  kept : c.bytes = bytes
  header : Header.read.valueAt bytes 0 = .ok c.header
  inside : checkTables bytes.size c.header = .ok ()
  strings : readTable bytes c.header.strings stringRow = .ok c.strings
  types : readTable bytes c.header.types (typeRow c.strings) = .ok c.types
  protos : readTable bytes c.header.protos (protoRow c.strings.size c.types.size) = .ok c.protos
  fields : readTable bytes c.header.fields (fieldRow c.strings.size c.types.size) = .ok c.fields
  methods : readTable bytes c.header.methods (methodRow c.strings.size c.types.size c.protos.size) = .ok c.methods
  classes : (classRows c.strings c.types #[] [] 0 c.header.classes.size.toNat).valueAt bytes c.header.classes.offset.toNat =
    .ok (c.classes,c.classIndex)

theorem ofBytes_ok {c : Container} (done : ofBytes bytes = .ok c) : Opened bytes c := by
  simp only [ofBytes,bind_eq_ok,pure_eq_ok] at done
  obtain ⟨header,read,⟨⟩,inside,strings,one,types,two,protos,three,fields,four,methods,five,⟨classes,classIndex⟩,six,rfl⟩ := done
  exact ⟨rfl,read,inside,one,two,three,four,five,six⟩

theorem table_rows {h : Header} {t : Table} {row : Nat → Reader α} {rows : Array α} (header : Header.read.valueAt bytes 0 = .ok h)
    (moves : ∀ i {bytes start a stop}, row i bytes start = .ok (a,stop) → stop = start + t.rowSize)
    (done : readTable bytes (h.table t) row = .ok rows) :
    rows.size = t.count bytes ∧ ∀ i a, rows[i]? = some a → ∃ stop, row i bytes (t.rowAt bytes i) = .ok (a,stop) := by
  obtain ⟨list,read,same⟩ := bind_eq_ok.mp done
  cases pure_eq_ok.mp same
  obtain ⟨long,each⟩ := (timesFrom_ok moves).mp read
  rw [(header_tables header t).1] at long
  refine ⟨long,?_⟩
  intro i a found
  have here := each i a (by simpa using found)
  rw [Nat.zero_add,(header_tables header t).2] at here
  exact valueAt_ok.mp here

namespace Opened

variable {c : Container}

theorem string_rows (opened : Opened bytes c) : c.strings.size = Table.strings.count bytes ∧
    ∀ i text, c.strings[i]? = some text → StringStored bytes (Table.strings.entry bytes i 0 4) text := by
  obtain ⟨size,each⟩ := table_rows (t := .strings) opened.header (fun _ _ _ _ _ done => (stringRow_ok done).2) opened.strings
  refine ⟨size,?_⟩
  intro i text found
  obtain ⟨stop,read⟩ := each i text found
  exact (stringRow_ok read).1

theorem type_rows (opened : Opened bytes c) : c.types.size = Table.types.count bytes ∧
    ∀ i index, c.types[i]? = some index → index.toNat = Table.types.entry bytes i 0 4 ∧ index.toNat < c.strings.size := by
  obtain ⟨size,each⟩ := table_rows (t := .types) opened.header (fun i _ _ _ _ => (typeRow_row _ i).moves) opened.types
  refine ⟨size,?_⟩
  intro i index found
  obtain ⟨stop,read⟩ := each i index found
  exact typeRow_ok read

theorem proto_rows (opened : Opened bytes c) : c.protos.size = Table.protos.count bytes ∧
    ∀ i row, c.protos[i]? = some row → row.shorty.toNat = Table.protos.entry bytes i 0 4 ∧
      row.result.toNat = Table.protos.entry bytes i 4 4 ∧ row.parameters.toNat = Table.protos.entry bytes i 8 4 ∧
        row.shorty.toNat < c.strings.size ∧ row.result.toNat < c.types.size := by
  obtain ⟨size,each⟩ := table_rows (t := .protos) opened.header (fun i _ _ _ _ => (protoRow_row _ _ i).moves) opened.protos
  refine ⟨size,?_⟩
  intro i row found
  obtain ⟨stop,read⟩ := each i row found
  exact protoRow_ok read

theorem field_rows (opened : Opened bytes c) : c.fields.size = Table.fields.count bytes ∧
    ∀ i row, c.fields[i]? = some row → row.owner.toNat = Table.fields.entry bytes i 0 2 ∧
      row.type.toNat = Table.fields.entry bytes i 2 2 ∧ row.name.toNat = Table.fields.entry bytes i 4 4 ∧
        row.owner.toNat < c.types.size ∧ row.type.toNat < c.types.size ∧ row.name.toNat < c.strings.size := by
  obtain ⟨size,each⟩ := table_rows (t := .fields) opened.header (fun i _ _ _ _ => (fieldRow_row _ _ i).moves) opened.fields
  refine ⟨size,?_⟩
  intro i row found
  obtain ⟨stop,read⟩ := each i row found
  exact fieldRow_ok read

theorem method_rows (opened : Opened bytes c) : c.methods.size = Table.methods.count bytes ∧
    ∀ i row, c.methods[i]? = some row → row.owner.toNat = Table.methods.entry bytes i 0 2 ∧
      row.proto.toNat = Table.methods.entry bytes i 2 2 ∧ row.name.toNat = Table.methods.entry bytes i 4 4 ∧
        row.owner.toNat < c.types.size ∧ row.proto.toNat < c.protos.size ∧ row.name.toNat < c.strings.size := by
  obtain ⟨size,each⟩ := table_rows (t := .methods) opened.header (fun i _ _ _ _ => (methodRow_row _ _ _ i).moves) opened.methods
  refine ⟨size,?_⟩
  intro i row found
  obtain ⟨stop,read⟩ := each i row found
  exact methodRow_ok read

theorem class_index (opened : Opened bytes c) : Indexed c.strings c.types c.classes c.classIndex ∧
    readTable bytes (c.header.table .classes) (classRow c.strings c.types) = .ok c.classes := by
  obtain ⟨stop,done⟩ := valueAt_ok.mp opened.classes
  have empty : Indexed c.strings c.types #[] [] := fun d i => by simp [ClassIndex.get?]
  obtain ⟨indexed,more,same,read⟩ := classRows_ok empty done
  refine ⟨indexed,bind_eq_ok.mpr ⟨more,valueAt_ok.mpr ⟨stop,read⟩,?_⟩⟩
  rw [same,Array.empty_append]
  rfl

theorem class_rows (opened : Opened bytes c) : c.classes.size = Table.classes.count bytes ∧
    ∀ i row, c.classes[i]? = some row → ClassRowAt bytes (Table.classes.rowAt bytes i) row ∧ row.type.toNat < c.types.size ∧
      (∀ index, optionalIndex row.superclass = some index → index.toNat < c.types.size) ∧
        ∀ index, optionalIndex row.sourceFile = some index → index.toNat < c.strings.size := by
  obtain ⟨size,each⟩ := table_rows opened.header (fun i _ _ _ _ => (classRow_row _ _ i).moves) opened.class_index.2
  refine ⟨size,?_⟩
  intro i row found
  obtain ⟨stop,read⟩ := each i row found
  exact classRow_ok read

end Opened

theorem readTable_error {h : Header} {t : Table} {row : Nat → Reader α} (header : Header.read.valueAt bytes 0 = .ok h)
    (inside : checkTables bytes.size h = .ok ())
    (moves : ∀ i {bytes start a stop}, row i bytes start = .ok (a,stop) → stop = start + t.rowSize)
    (failed : readTable bytes (h.table t) row = .error fault) :
    ∃ i < t.count bytes, t.rowAt bytes i + t.rowSize ≤ bytes.size ∧ row i bytes (t.rowAt bytes i) = .error fault := by
  rcases bind_eq_error.mp failed with read | ⟨rows,-,failed⟩
  · obtain ⟨i,below,found⟩ := timesFrom_error moves (valueAt_error.mp read)
    rw [(header_tables header t).1] at below
    rw [Nat.zero_add,(header_tables header t).2] at found
    exact ⟨i,below,(tables_inside header).mp inside t i below,found⟩
  · cases failed

theorem readTable_told {h : Header} {t : Table} {row : Nat → Reader α} (header : Header.read.valueAt bytes 0 = .ok h)
    (inside : checkTables bytes.size h = .ok ()) (rows : ∀ i, Row t.rowSize (row i))
    (failed : readTable bytes (h.table t) row = .error fault) : fault.cause.Told := by
  obtain ⟨i,-,room,found⟩ := readTable_error header inside (fun i _ _ _ _ => (rows i).moves) failed
  exact (rows i).told room found

theorem ofBytes_ended {h : Header} (header : Header.read.valueAt bytes 0 = .ok h) (inside : checkTables bytes.size h = .ok ())
    (failed : ofBytes bytes = .error fault) (ended : fault.cause.Ended) : ∃ i < Table.strings.count bytes,
      readString.inContext (.row .strings i) bytes (Table.strings.entry bytes i 0 4) = .error fault := by
  rw [ofBytes,header,ok_bind,inside,ok_bind] at failed
  rcases bind_eq_error.mp failed with found | ⟨strings,-,failed⟩
  · obtain ⟨i,below,room,found⟩ := readTable_error (t := .strings) header inside (fun _ _ _ _ _ done => (stringRow_ok done).2) found
    exact ⟨i,below,stringRow_error room found⟩
  suffices told : fault.cause.Told from absurd ended told.2
  rcases bind_eq_error.mp failed with found | ⟨types,-,failed⟩
  · exact readTable_told (t := .types) header inside (typeRow_row strings) found
  rcases bind_eq_error.mp failed with found | ⟨protos,-,failed⟩
  · exact readTable_told (t := .protos) header inside (protoRow_row _ _) found
  rcases bind_eq_error.mp failed with found | ⟨fields,-,failed⟩
  · exact readTable_told (t := .fields) header inside (fieldRow_row _ _) found
  rcases bind_eq_error.mp failed with found | ⟨methods,-,failed⟩
  · exact readTable_told (t := .methods) header inside (methodRow_row _ _ _) found
  rcases bind_eq_error.mp failed with found | ⟨classes,-,failed⟩
  · rcases classRows_error (valueAt_error.mp found) with ⟨i,below,found⟩ | told
    · exact (classRow_row strings types (0 + i)).told (checkTable_ok.mp (checkTables_ok.mp inside .classes) i below) found
    · exact told
  · cases failed

end Container

end Restack
