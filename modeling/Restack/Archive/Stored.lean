import Restack.Archive.Basic
import Restack.Archive.Directory

namespace Restack

-- A reader of ZIP files whose members are stored as they are.

structure StoredArchive where
  bytes : Bytes
  entries : List ArchiveEntry

namespace StoredArchive

def headerSignature : Nat := 0x04034b50

def insertName (name : String) : List String → List String
  | [] => [name]
  | other :: rest =>
    if name = other then other :: rest
    else if name < other then name :: other :: rest
    else other :: insertName name rest

-- Sorted, each once.
def names (a : StoredArchive) : List String := a.entries.foldl (fun names entry => insertName entry.name names) []

def find? (a : StoredArchive) (name : String) : Option ArchiveEntry :=
  a.entries.reverse.find? fun entry => entry.name = name

-- A member starts after its own header, whose name and extra fields need not be those of the row.
def readHeader : Reader (Option Nat) := do
  let signature ← Reader.u4
  let _ ← Reader.take 22
  let nameSize ← Reader.u2
  let extraSize ← Reader.u2
  let here ← Reader.offset
  return if signature.toNat = headerSignature then some (here + nameSize.toNat + extraSize.toNat) else none

def dataStart? (a : StoredArchive) (entry : ArchiveEntry) : Option Nat :=
  (readHeader.valueAt a.bytes entry.header).toOption.bind id

-- As many bytes as there are up to the size.
def member (a : StoredArchive) (name : String) : Except ZipFault ZipMember :=
  match a.find? name with
  | none => .error .fileNotFound
  | some entry =>
    match if entry.isStored then a.dataStart? entry else none with
    | none => .error (.other "unsupported Zip archive")
    | some start =>
      let data := a.bytes.extract start (start + entry.size)
      let content := if Crc32.ofBytes data.toList = entry.crc then .ok data else .error ⟨"Invalid checksum"⟩
      .ok { size := UInt64.ofNat entry.fullSize, content }

-- The last record at which all is well counts.
def zip : ZipReader := fun bytes =>
  let places := (Archive.Directory.placesOf bytes Archive.Directory.endSignature 0 bytes.size).reverse
  match places.findSome? fun place => (Archive.Directory.at? bytes place).bind (Archive.Directory.entries? bytes) with
  | none => .error (.other "invalid Zip archive")
  | some entries => .ok { names := names { bytes, entries }, byName := member { bytes, entries } }

end StoredArchive

end Restack
