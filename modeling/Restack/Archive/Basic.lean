import Restack.Bytes.Reader

namespace Restack

-- The container in an archive. ZIP files are read by a library, which is left open: only how its
-- answers are used is told here.

structure IoFault where
  text : String
deriving DecidableEq, Repr

inductive ZipFault where
  | fileNotFound
  | other (text : String)
deriving DecidableEq, Repr

def ZipFault.message : ZipFault → String
  | .fileNotFound => "specified file not found in archive"
  | .other text => text

structure ZipMember where
  -- What the archive says, which need not be how many bytes there are.
  size : UInt64
  content : Except IoFault Bytes

structure ZipArchive where
  names : List String
  byName : String → Except ZipFault ZipMember

abbrev ZipReader := Bytes → Except ZipFault ZipArchive

inductive ArchiveFault where
  | io (fault : IoFault)
  | zip (fault : ZipFault)
  | missingEntry (name : String)
  -- A member says that it has more bytes than can be asked for.
  | capacity
deriving DecidableEq, Repr

def ArchiveFault.message : ArchiveFault → String
  | .io fault => "I/O error: " ++ fault.text
  | .zip fault => "ZIP error: " ++ fault.message
  | .missingEntry name => "archive has no " ++ name ++ " entry"
  | .capacity => "capacity overflow"

structure Archive where
  zip : ZipArchive

namespace Archive

def ofBytes (zip : ZipReader) (bytes : Bytes) : Except ArchiveFault Archive :=
  match zip bytes with
  | .ok archive => .ok ⟨archive⟩
  | .error fault => .error (.zip fault)

def names (a : Archive) : List String := a.zip.names

def sizeLimit : Nat := 0x7fffffffffffffff

-- A whole member.
def read (a : Archive) (entry : String) : Except ArchiveFault Bytes :=
  match a.zip.byName entry with
  | .error .fileNotFound => .error (.missingEntry entry)
  | .error fault => .error (.zip fault)
  | .ok file => if sizeLimit < file.size.toNat then .error .capacity else file.content.mapError .io

end Archive

end Restack
