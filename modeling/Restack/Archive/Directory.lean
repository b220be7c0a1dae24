import Restack.Archive.Extra

namespace Restack.Archive

-- The directory of an archive is found from records at the end of the file.
-- Whatever stands before the first member shifts all offsets.

structure Directory where
  start : Nat
  shift : Nat
  count : Nat
deriving DecidableEq, Repr

namespace Directory

def endSignature : Nat := 0x06054b50

def wideEndSignature : Nat := 0x06064b50

def locatorSignature : Nat := 0x07064b50

def rowSignature : Nat := 0x02014b50

def rowSize : Nat := 46

def hasWordAt (bytes : Bytes) (word offset : Nat) : Bool :=
  match Reader.u4.valueAt bytes offset with
  | .ok found => found.toNat = word
  | .error _ => false

def placesOf (bytes : Bytes) (word start stop : Nat) : List Nat :=
  ((List.range (stop - start)).map (start + ·)).filter (hasWordAt bytes word)

def readWide : Reader Nat := do return littleEndian (← Reader.take 8)

structure EndRecord where
  disk : Nat
  directoryDisk : Nat
  count : Nat
  total : Nat
  start : Nat
deriving DecidableEq, Repr

def readEnd : Reader EndRecord := do
  let _ ← Reader.u4
  let disk ← Reader.u2
  let directoryDisk ← Reader.u2
  let count ← Reader.u2
  let total ← Reader.u2
  let _ ← Reader.u4
  let start ← Reader.u4
  let commentSize ← Reader.u2
  let _ ← Reader.take commentSize.toNat
  return ⟨disk.toNat, directoryDisk.toNat, count.toNat, total.toNat, start.toNat⟩

def EndRecord.isFull (r : EndRecord) : Bool := r.total = 0xffff || r.start = 0xffffffff

structure Locator where
  disk : Nat
  wideEnd : Nat
  disks : Nat
deriving DecidableEq, Repr

def locatorSize : Nat := 20

def readLocator : Reader Locator := do
  let _ ← Reader.u4
  let disk ← Reader.u4
  let wideEnd ← readWide
  let disks ← Reader.u4
  return ⟨disk.toNat, wideEnd, disks.toNat⟩

def locator? (bytes : Bytes) (place : Nat) : Option (Nat × Locator) :=
  if place < locatorSize then none
  else if hasWordAt bytes locatorSignature (place - locatorSize) then
    match readLocator.valueAt bytes (place - locatorSize) with
    | .ok l => some (place - locatorSize, l)
    | .error _ => none
  else none

structure WideEnd where
  size : Nat
  madeBy : Nat
  needed : Nat
  disk : Nat
  directoryDisk : Nat
  count : Nat
  total : Nat
  start : Nat
deriving DecidableEq, Repr

def readWideEnd : Reader WideEnd := do
  let _ ← Reader.u4
  let size ← readWide
  let madeBy ← Reader.u2
  let needed ← Reader.u2
  let disk ← Reader.u4
  let directoryDisk ← Reader.u4
  let count ← readWide
  let total ← readWide
  let _ ← readWide
  let start ← readWide
  return ⟨size, madeBy.toNat, needed.toNat, disk.toNat, directoryDisk.toNat, count, total, start⟩

def wideEndAt? (bytes : Bytes) (locatorPlace : Nat) (l : Locator) (place : Nat) : Option (Nat × WideEnd) :=
  match readWideEnd.valueAt bytes place with
  | .error _ => none
  | .ok r =>
    if 44 ≤ r.size && r.size + 12 = locatorPlace - place && r.directoryDisk = l.disk &&
        r.total * rowSize + r.start ≤ place then
      some (place, r)
    else none

def wideAt? (bytes : Bytes) (locatorPlace : Nat) (l : Locator) : Option Directory := do
  if locatorPlace ≤ l.wideEnd || 1 < l.disks then none
  let (place, r) ← (placesOf bytes wideEndSignature l.wideEnd locatorPlace).findSome? (wideEndAt? bytes locatorPlace l)
  if r.total < r.count || r.madeBy < r.needed || r.disk ≠ r.directoryDisk then none
  return ⟨r.start + (place - l.wideEnd), place - l.wideEnd, r.total⟩

-- The directory by the record at `place`: it starts at the first row from where it is said to.
-- One that should be empty is right before the record.
def narrowAt? (bytes : Bytes) (place : Nat) (r : EndRecord) : Option Directory := do
  if r.disk ≠ r.directoryDisk then none
  if r.total = 0 then return ⟨max place r.start, place - r.start, r.count⟩
  let start ← (placesOf bytes rowSignature r.start place).head?
  return ⟨start, start - r.start, r.count⟩

def at? (bytes : Bytes) (place : Nat) : Option Directory := do
  let r ← (readEnd.valueAt bytes place).toOption
  match if r.isFull then locator? bytes place else none with
  | some (locatorPlace, l) => wideAt? bytes locatorPlace l
  | none => narrowAt? bytes place r

def readRow (d : Directory) : Reader (Option ArchiveEntry) := do
  let signature ← Reader.u4
  let _ ← Reader.u4
  let flags ← Reader.u2
  let packing ← Reader.u2
  let _ ← Reader.u4
  let crc ← Reader.u4
  let size ← Reader.u4
  let fullSize ← Reader.u4
  let nameSize ← Reader.u2
  let extraSize ← Reader.u2
  let commentSize ← Reader.u2
  let _ ← Reader.take 8
  let header ← Reader.u4
  let rawName ← Reader.take nameSize.toNat
  let extra ← Reader.take extraSize.toNat
  let comment ← Reader.take commentSize.toNat
  let entry : ArchiveEntry := {
    name := ArchiveEntry.decodeText flags rawName, rawName, comment := ArchiveEntry.decodeText flags comment,
    flags, packing, crc, size := size.toNat, fullSize := fullSize.toNat, header := header.toNat }
  if signature.toNat ≠ rowSignature then return none
  match Extra.read entry extra with
  | none => return none
  | some e =>
    -- 99 stands for encryption, and that has to be described.
    if e.packing = 99 && !e.locked then return none
    else if d.start ≤ e.header + d.shift then return none
    else return some { e with header := e.header + d.shift }

def readRows (d : Directory) : Nat → Reader (Option (List ArchiveEntry))
  | 0 => Reader.pure (some [])
  | count + 1 => do
    match ← readRow d with
    | none => return none
    | some entry =>
      let rest ← readRows d count
      return rest.map (entry :: ·)

def entries? (bytes : Bytes) (d : Directory) : Option (List ArchiveEntry) :=
  ((readRows d d.count).valueAt bytes d.start).toOption.bind id

end Directory

end Restack.Archive
