import Restack.Text.ModifiedUtf8
import Restack.Container.Header
import Restack.Container.Rows
import Restack.Container.Annotations
import Restack.Container.ClassData
import Restack.Container.CodeItem

namespace Restack

def readTerminated : Nat → Reader (List UInt8)
  | 0 => fun _ offset => reject (.endOfStream .u1 offset)
  | fuel + 1 => do
    let b ← Reader.u1
    if b = 0 then return []
    else
      let rest ← readTerminated fuel
      return b :: rest

def readString : Reader String := do
  let start ← Reader.offset
  let declared ← Reader.uleb128
  let here ← Reader.offset
  let available ← Reader.size
  let bytes ← readTerminated (available - here)
  match Text.decodeStringData bytes with
  | none => (reject (.badStringData start) : Except Fault String)
  | some text =>
    let decoded := Text.utf16Length text
    if decoded ≠ declared.toNat then (reject (.stringLength start declared.toNat decoded) : Except Fault String)
    else return text

-- The numbers of class definitions by descriptor.
abbrev ClassIndex := List (String × Nat)

namespace ClassIndex

def get? (index : ClassIndex) (descriptor : String) : Option Nat := List.lookup descriptor index

-- Gives what the descriptor was bound to before.
def insert (index : ClassIndex) (descriptor : String) (number : Nat) : Option Nat × ClassIndex :=
  (index.get? descriptor, (descriptor, number) :: index.filter fun entry => entry.1 ≠ descriptor)

end ClassIndex

-- A container with its tables read and every index in them in range. What only a class
-- definition refers to is read when it is asked for.
structure Container where
  header : Header
  bytes : Bytes
  strings : Array String
  types : Array UInt32
  protos : Array ProtoRow
  fields : Array FieldRow
  methods : Array MethodRow
  classes : Array ClassRow
  classIndex : ClassIndex

structure Proto where
  shorty : String
  result : String
  parameters : List String
deriving DecidableEq, Repr

def Proto.descriptor (p : Proto) : String := "(" ++ String.join p.parameters ++ ")" ++ p.result

structure FieldName where
  owner : String
  name : String
  type : String
deriving DecidableEq, Repr

structure MethodName where
  owner : String
  name : String
  proto : Proto
deriving DecidableEq, Repr

structure ClassDef where
  descriptor : String
  accessFlags : UInt32
  superclass : Option String
  interfaces : List String
  sourceFile : Option String
  row : ClassRow
deriving DecidableEq, Repr

namespace Container

-- Opening: the tables are checked against the file and read in an order in
-- which each refers only to those before it.

def checkTable (available : Nat) (table : Table) (s : Section) (rowSize : Nat) : Except Fault Unit :=
  if 0 < s.size.toNat && available < s.offset.toNat + s.size.toNat * rowSize then
    reject (.tablePastEnd table s.offset.toNat s.size.toNat)
  else .ok ()

def checkTables (available : Nat) (h : Header) : Except Fault Unit := do
  checkTable available .strings h.strings 4
  checkTable available .types h.types 4
  checkTable available .protos h.protos 12
  checkTable available .fields h.fields 8
  checkTable available .methods h.methods 8
  checkTable available .classes h.classes 32

def checkIndex (table : Table) (index size offset : Nat) : Except Fault Unit :=
  if index < size then .ok () else reject (.rowIndexOutOfRange table index size offset)

def readTable {α : Type} (bytes : Bytes) (s : Section) (row : Nat → Reader α) : Except Fault (Array α) := do
  let rows ← (Reader.timesFrom row 0 s.size.toNat).valueAt bytes s.offset.toNat
  return rows.toArray

def stringRow (i : Nat) : Reader String := do
  let place ← Reader.u4
  Reader.elsewhere place.toNat (readString.inContext (.row .strings i))

def typeRow (strings : Array String) (i : Nat) : Reader UInt32 := do
  let offset ← Reader.offset
  let index ← Reader.u4
  match strings[index.toNat]? with
  | none => (reject (.typeNameOutOfRange index.toNat i offset) : Except Fault UInt32)
  | some text =>
    if text.isEmpty then (reject (.emptyTypeName i offset) : Except Fault UInt32) else return index

def protoRow (strings types : Nat) (i : Nat) : Reader ProtoRow := do
  let offset ← Reader.offset
  let row ← ProtoRow.read
  within (.row .protos i) do
    checkIndex .strings row.shorty.toNat strings offset
    checkIndex .types row.result.toNat types offset
  return row

def fieldRow (strings types : Nat) (i : Nat) : Reader FieldRow := do
  let offset ← Reader.offset
  let row ← FieldRow.read
  within (.row .fields i) do
    checkIndex .types row.owner.toNat types offset
    checkIndex .types row.type.toNat types offset
    checkIndex .strings row.name.toNat strings offset
  return row

def methodRow (strings types protos : Nat) (i : Nat) : Reader MethodRow := do
  let offset ← Reader.offset
  let row ← MethodRow.read
  within (.row .methods i) do
    checkIndex .types row.owner.toNat types offset
    checkIndex .protos row.proto.toNat protos offset
    checkIndex .strings row.name.toNat strings offset
  return row

def checkOptionalIndex (table : Table) (index : UInt32) (size offset : Nat) : Except Fault Unit :=
  match optionalIndex index with
  | none => .ok ()
  | some index => checkIndex table index.toNat size offset

def typeName (strings : Array String) (types : Array UInt32) (index : Nat) : String :=
  match types[index]? with
  | none => ""
  | some text => strings[text.toNat]?.getD ""

def classRow (strings : Array String) (types : Array UInt32) (i : Nat) : Reader ClassRow := do
  let offset ← Reader.offset
  let row ← ClassRow.read
  within (.row .classes i) do
    checkIndex .types row.type.toNat types.size offset
    checkOptionalIndex .types row.superclass types.size offset
    checkOptionalIndex .strings row.sourceFile strings.size offset
  return row

-- The definitions after those that were read already, each put into the index as it is met. No
-- descriptor comes twice.
def classRows (strings : Array String) (types : Array UInt32) (rows : Array ClassRow) (index : ClassIndex) :
    Nat → Nat → Reader (Array ClassRow × ClassIndex)
  | _, 0 => Reader.pure (rows, index)
  | i, count + 1 => do
    let offset ← Reader.offset
    let row ← classRow strings types i
    let name := typeName strings types row.type.toNat
    let (known, index) := index.insert name rows.size
    if known.isSome then (reject (.duplicateClass name offset) : Except Fault Unit)
    classRows strings types (rows.push row) index (i + 1) count

def ofBytes (bytes : Bytes) : Except Fault Container := do
  let header ← Header.read.valueAt bytes 0
  checkTables bytes.size header
  let strings ← readTable bytes header.strings stringRow
  let types ← readTable bytes header.types (typeRow strings)
  let protos ← readTable bytes header.protos (protoRow strings.size types.size)
  let fields ← readTable bytes header.fields (fieldRow strings.size types.size)
  let methods ← readTable bytes header.methods (methodRow strings.size types.size protos.size)
  let (classes, classIndex) ←
    (classRows strings types #[] [] 0 header.classes.size.toNat).valueAt bytes header.classes.offset.toNat
  return { header, bytes, strings, types, protos, fields, methods, classes, classIndex }

-- Lookups by index.

def row {α : Type} (table : Table) (rows : Array α) (index : Nat) : Except Fault α :=
  match rows[index]? with
  | some found => .ok found
  | none => reject (.outOfRange table index rows.size)

def string (c : Container) (index : UInt32) : Except Fault String := row .strings c.strings index.toNat

def type (c : Container) (index : UInt32) : Except Fault String := do
  let _ ← row .types c.types index.toNat
  return typeName c.strings c.types index.toNat

def typeList (c : Container) (offset : UInt32) : Except Fault (List String) :=
  if offset = 0 then .ok []
  else
    let entry : Reader String := do
      let index ← Reader.u2
      within (.typeList offset.toNat) (c.type index.toUInt32)
    let list : Reader (List String) := do
      let count ← Reader.u4
      Reader.times count.toNat entry
    list.valueAt c.bytes offset.toNat

def proto (c : Container) (index : UInt32) : Except Fault Proto := do
  let found ← row .protos c.protos index.toNat
  let shorty ← c.string found.shorty
  let result ← c.type found.result
  let parameters ← c.typeList found.parameters
  return { shorty, result, parameters }

def field (c : Container) (index : UInt32) : Except Fault FieldName := do
  let found ← row .fields c.fields index.toNat
  let owner ← c.type found.owner.toUInt32
  let name ← c.string found.name
  let type ← c.type found.type.toUInt32
  return { owner, name, type }

def method (c : Container) (index : UInt32) : Except Fault MethodName := do
  let found ← row .methods c.methods index.toNat
  let owner ← c.type found.owner.toUInt32
  let name ← c.string found.name
  let proto ← c.proto found.proto.toUInt32
  return { owner, name, proto }

def optional {α : Type} (lookup : UInt32 → Except Fault α) (index : UInt32) : Except Fault (Option α) :=
  match optionalIndex index with
  | none => .ok none
  | some index => (lookup index).map some

def classDef (c : Container) (index : Nat) : Except Fault ClassDef := do
  let found ← row .classes c.classes index
  let superclass ← optional c.type found.superclass
  let sourceFile ← optional c.string found.sourceFile
  let descriptor ← c.type found.type
  let interfaces ← c.typeList found.interfaces
  return { descriptor, accessFlags := found.accessFlags, superclass, interfaces, sourceFile, row := found }

def findClass (c : Container) (descriptor : String) : Except Fault (Option ClassDef) :=
  match c.classIndex.get? descriptor with
  | none => .ok none
  | some index => (c.classDef index).map some

-- What class definitions refer to by offset, where zero means nothing.

def classData (c : Container) (d : ClassDef) : Except Fault (Option ClassData) :=
  if d.row.classData = 0 then .ok none
  else within (.classData d.descriptor) ((ClassData.read.valueAt c.bytes d.row.classData.toNat).map some)

def codeItem (c : Container) (offset : UInt32) : Except Fault CodeItem :=
  CodeItem.read.valueAt c.bytes offset.toNat

def staticValues (c : Container) (d : ClassDef) : Except Fault (List Value) :=
  if d.row.staticValues = 0 then .ok []
  else within (.staticValues d.descriptor) (Value.readArray.valueAt c.bytes d.row.staticValues.toNat)

def annotationsDirectory (c : Container) (d : ClassDef) : Except Fault (Option Directory) :=
  if d.row.annotations = 0 then .ok none
  else within (.annotationsDirectory d.descriptor)
    ((Directory.read.valueAt c.bytes d.row.annotations.toNat).map some)

def annotSet (c : Container) (offset : UInt32) : Except Fault (List AnnotItem) :=
  if offset = 0 then .ok []
  else do
    let entries ← readOffsets.valueAt c.bytes offset.toNat
    entries.mapM fun entry => within (.annotationItem entry.toNat) (AnnotItem.read.valueAt c.bytes entry.toNat)

def annotSetList (c : Container) (offset : UInt32) : Except Fault (List (List AnnotItem)) := do
  let sets ← readOffsets.valueAt c.bytes offset.toNat
  sets.mapM c.annotSet

end Container

end Restack
