import Restack.Archive.Entry
import Restack.Bytes.Crc32

namespace Restack

-- Extra fields of a directory row: a kind, a length and contents each. Bytes
-- that end in the middle of a field end the fields, and what was read up to
-- there counts. A field that is there and is wrong makes the archive unreadable.

inductive ExtraStep where
  | next (entry : ArchiveEntry) (taken : Nat)
  | cutShort (entry : ArchiveEntry)
  | refused
deriving DecidableEq, Repr

namespace Extra

inductive WideField where
  | fullSize | size | header
deriving DecidableEq, Repr

def WideField.get (e : ArchiveEntry) : WideField → Nat
  | .fullSize => e.fullSize
  | .size => e.size
  | .header => e.header

def WideField.put (e : ArchiveEntry) (n : Nat) : WideField → ArchiveEntry
  | .fullSize => { e with fullSize := n }
  | .size => { e with size := n }
  | .header => { e with header := n }

def tooWide : Nat := 0xffffffff

-- The numbers in a field: all of them if it is long enough, else those the row has no room for.
def wideFields (e : ArchiveEntry) (length : Nat) : List WideField :=
  [WideField.fullSize, .size, .header].filter fun f => 24 ≤ length || f.get e = tooWide

def widen (e : ArchiveEntry) : List WideField → List UInt8 → ArchiveEntry × Bool
  | [], _ => (e, true)
  | f :: rest, bytes =>
    if bytes.length < 8 then (e, false) else widen (f.put e (littleEndian (bytes.take 8))) rest (bytes.drop 8)

def skip (e : ArchiveEntry) (taken : Nat) (bytes : List UInt8) : ExtraStep :=
  if bytes.length < taken then .cutShort e else .next e taken

def wideNumbers (e : ArchiveEntry) (length : Nat) (bytes : List UInt8) : ExtraStep :=
  let fields := wideFields e length
  match widen e fields bytes with
  | (e, false) => .cutShort e
  | (e, true) => if length < 8 * fields.length then .refused else skip e length bytes

def fileTimes (e : ArchiveEntry) (length : Nat) (bytes : List UInt8) : ExtraStep :=
  if length ≠ 32 then .refused
  else if bytes.length < 6 then .cutShort e
  else if littleEndian ((bytes.drop 4).take 2) ≠ 1 then .refused
  else if bytes.length < 8 then .cutShort e
  else if littleEndian ((bytes.drop 6).take 2) ≠ 24 then .refused
  else skip e 32 bytes

-- Times in seconds. The flags say which of three there are, except that a field with room for one
-- has that of the last change. Flags without a meaning count for the length and have no time.
def secondTimes (e : ArchiveEntry) (length : Nat) : List UInt8 → ExtraStep
  | [] => .cutShort e
  | flags :: rest =>
    let has (i : Nat) : Bool := flags.toNat.testBit i
    if length = 5 then skip e 5 (flags :: rest)
    else if length ≠ 1 + 4 * (List.range 8).countP has then .refused
    else skip e (1 + 4 * (List.range 3).countP has) (flags :: rest)

def encryption (e : ArchiveEntry) (length : Nat) (bytes : List UInt8) : ExtraStep :=
  if length ≠ 7 then .refused
  else match bytes with
    | version0 :: version1 :: vendor0 :: vendor1 :: strength :: packing0 :: packing1 :: _ =>
      let version := littleEndian [version0, version1]
      if littleEndian [vendor0, vendor1] ≠ 0x4541 then .refused
      else if version < 1 || 2 < version then .refused
      else if strength.toNat < 1 || 3 < strength.toNat then .refused
      else .next { e with locked := true, packing := UInt16.ofNat (littleEndian [packing0, packing1]) } 7
    | _ => .cutShort e

-- Text in UTF-8 that goes in place of another, of which the field has the checksum. The first
-- byte is a version.
def replacement (e : ArchiveEntry) (length : Nat) (replaced : List UInt8)
    (put : List UInt8 → String → ArchiveEntry) (bytes : List UInt8) : ExtraStep :=
  if bytes.length < 5 then .cutShort e
  else if length < 5 then .refused
  else if bytes.length < length then .cutShort e
  else if Crc32.ofBytes replaced ≠ UInt32.ofNat (littleEndian ((bytes.drop 1).take 4)) then .refused
  else
    let content := (bytes.take length).drop 5
    match Text.decodeUtf8 content with
    | some chars => .next (put content (String.ofList chars)) length
    | none => .refused

def field (e : ArchiveEntry) (kind length : Nat) (bytes : List UInt8) : ExtraStep :=
  match kind with
  | 0x0001 => wideNumbers e length bytes
  | 0x000a => fileTimes e length bytes
  | 0x5455 => secondTimes e length bytes
  | 0x6375 => replacement e length e.comment.toUTF8.data.toList (fun _ text => { e with comment := text }) bytes
  | 0x7075 => replacement e length e.rawName (fun raw text => { e with rawName := raw, name := text }) bytes
  | 0x9901 => encryption e length bytes
  | _ => skip e length bytes

def read (e : ArchiveEntry) : List UInt8 → Option ArchiveEntry
  | kind0 :: kind1 :: length0 :: length1 :: bytes =>
    match field e (littleEndian [kind0, kind1]) (littleEndian [length0, length1]) bytes with
    | .next e taken => read e (bytes.drop taken)
    | .cutShort e => some e
    | .refused => none
  | _ => some e
termination_by bytes => bytes.length

end Extra

end Restack
