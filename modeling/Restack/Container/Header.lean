import Restack.Bytes.Reader

namespace Restack

structure Section where
  size : UInt32
  offset : UInt32
deriving DecidableEq, Repr

def Section.read : Reader Section := do
  let size ← Reader.u4
  let offset ← Reader.u4
  return ⟨size, offset⟩

structure Header where
  magic : List UInt8
  checksum : UInt32
  signature : List UInt8
  fileSize : UInt32
  headerSize : UInt32
  endianTag : UInt32
  link : Section
  mapOffset : UInt32
  strings : Section
  types : Section
  protos : Section
  fields : Section
  methods : Section
  classes : Section
  data : Section
deriving DecidableEq, Repr

namespace Header

def byteSize : Nat := 0x70

def magicWord : List UInt8 := [0x64, 0x65, 0x78, 0x0a]

def littleEndianTag : Nat := 0x12345678

def bigEndianTag : Nat := 0x78563412

def isDigit (b : UInt8) : Bool := 0x30 ≤ b.toNat && b.toNat ≤ 0x39

def isMagic (magic : List UInt8) : Bool :=
  magic.take 4 = magicWord && ((magic.drop 4).take 3).all isDigit && magic.drop 7 = [0]

def check (fileSize headerSize endianTag available : Nat) : Except Fault Unit := do
  if endianTag = bigEndianTag then reject (.byteSwapped endianTag)
  if endianTag ≠ littleEndianTag then reject (.badEndianTag endianTag)
  if headerSize ≠ byteSize then reject (.badHeaderSize headerSize)
  if available < fileSize then reject (.fileSizeTooLarge fileSize available)

def read : Reader Header := do
  let available ← Reader.size
  if available < byteSize then (reject (.headerTooShort available) : Except Fault Unit)
  let magic ← Reader.take 8
  if !isMagic magic then (reject (.badMagic magic) : Except Fault Unit)
  let checksum ← Reader.u4
  let signature ← Reader.take 20
  let fileSize ← Reader.u4
  let headerSize ← Reader.u4
  let endianTag ← Reader.u4
  check fileSize.toNat headerSize.toNat endianTag.toNat available
  let link ← Section.read
  let mapOffset ← Reader.u4
  let strings ← Section.read
  let types ← Section.read
  let protos ← Section.read
  let fields ← Section.read
  let methods ← Section.read
  let classes ← Section.read
  let data ← Section.read
  return {
    magic, checksum, signature, fileSize, headerSize, endianTag, link, mapOffset,
    strings, types, protos, fields, methods, classes, data }

def version (h : Header) : Nat :=
  ((h.magic.drop 4).take 3).foldl (fun total digit => total * 10 + (digit.toNat - 0x30)) 0

end Header

end Restack
