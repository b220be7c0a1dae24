namespace Restack.Crc32

-- The checksum of ZIP archives: the remainder of the reflected polynomial
-- 0xedb88320, started and finished with all bits inverted.

def shift (crc : UInt32) : UInt32 := if crc &&& 1 = 1 then (crc >>> 1) ^^^ 0xedb88320 else crc >>> 1

def step (crc : UInt32) (b : UInt8) : UInt32 := Nat.repeat shift 8 (crc ^^^ b.toUInt32)

def ofBytes (bytes : List UInt8) : UInt32 := bytes.foldl step 0xffffffff ^^^ 0xffffffff

end Restack.Crc32
