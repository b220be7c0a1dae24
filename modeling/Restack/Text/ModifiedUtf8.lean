namespace Restack.Text

-- String data of a container. A byte string that is standard UTF-8 is taken as
-- such; anything else must be modified UTF-8, where NUL is two bytes and a
-- supplementary character is a surrogate pair of three bytes each.

def isContinuation (b : UInt8) : Bool := 0x80 ≤ b.toNat && b.toNat < 0xc0

def low6 (b : UInt8) : Nat := b.toNat % 64

def charOfCode? (code : Nat) : Option Char :=
  if code.isValidChar then some (Char.ofNat code) else none

def twoByte? (a b : UInt8) : Option Char :=
  if 0xc2 ≤ a.toNat && a.toNat < 0xe0 && isContinuation b then charOfCode? (a.toNat % 32 * 64 + low6 b)
  else none

def threeByteCode? (a b c : UInt8) : Option Nat :=
  if 0xe0 ≤ a.toNat && a.toNat < 0xf0 && isContinuation b && isContinuation c then
    let code := a.toNat % 16 * 4096 + low6 b * 64 + low6 c
    if 0x800 ≤ code then some code else none
  else none

def fourByte? (a b c d : UInt8) : Option Char :=
  if 0xf0 ≤ a.toNat && a.toNat < 0xf5 && isContinuation b && isContinuation c && isContinuation d then
    let code := a.toNat % 8 * 262144 + low6 b * 4096 + low6 c * 64 + low6 d
    if 0x10000 ≤ code then charOfCode? code else none
  else none

def decodeUtf8 : List UInt8 → Option (List Char)
  | [] => some []
  | a :: rest =>
    if a.toNat < 0x80 then (decodeUtf8 rest).map (Char.ofNat a.toNat :: ·)
    else match rest with
      | b :: rest2 =>
        match twoByte? a b with
        | some ch => (decodeUtf8 rest2).map (ch :: ·)
        | none => match rest2 with
          | c :: rest3 =>
            match (threeByteCode? a b c).bind charOfCode? with
            | some ch => (decodeUtf8 rest3).map (ch :: ·)
            | none => match rest3 with
              | d :: rest4 => (fourByte? a b c d).bind fun ch => (decodeUtf8 rest4).map (ch :: ·)
              | [] => none
          | [] => none
      | [] => none

def isHighSurrogate (code : Nat) : Bool := 0xd800 ≤ code && code < 0xdc00

def isLowSurrogate (code : Nat) : Bool := 0xdc00 ≤ code && code < 0xe000

def surrogatePair (high low : Nat) : Nat := 0x10000 + (high - 0xd800) * 0x400 + (low - 0xdc00)

-- Modified UTF-8 read strictly: a zero byte, a four-byte form, a lone surrogate and an
-- overlong form other than that of NUL are refused.
def decodeModified : List UInt8 → Option (List Char)
  | [] => some []
  | a :: rest =>
    if a.toNat = 0 then none
    else if a.toNat < 0x80 then (decodeModified rest).map (Char.ofNat a.toNat :: ·)
    else match rest with
      | [] => none
      | b :: rest2 =>
        if a.toNat = 0xc0 then
          if b.toNat = 0x80 then (decodeModified rest2).map (Char.ofNat 0 :: ·) else none
        else match twoByte? a b with
          | some ch => (decodeModified rest2).map (ch :: ·)
          | none => match rest2 with
            | [] => none
            | c :: rest3 =>
              match threeByteCode? a b c with
              | none => none
              | some code =>
                if isHighSurrogate code then match rest3 with
                  | d :: e :: f :: rest6 =>
                    match threeByteCode? d e f with
                    | none => none
                    | some low =>
                      if isLowSurrogate low then
                        (charOfCode? (surrogatePair code low)).bind fun ch =>
                          (decodeModified rest6).map (ch :: ·)
                      else none
                  | _ => none
                else (charOfCode? code).bind fun ch => (decodeModified rest3).map (ch :: ·)

def decodeStringData (bytes : List UInt8) : Option String :=
  match decodeUtf8 bytes with
  | some chars => some (String.ofList chars)
  | none => (decodeModified bytes).map String.ofList

def utf16Length (s : String) : Nat :=
  s.toList.foldl (fun total c => total + if c.toNat < 0x10000 then 1 else 2) 0

def threeBytes (code : Nat) : List UInt8 :=
  [UInt8.ofNat (0xe0 + code / 4096), UInt8.ofNat (0x80 + code / 64 % 64), UInt8.ofNat (0x80 + code % 64)]

def encodeModifiedChar (c : Char) : List UInt8 :=
  let code := c.toNat
  if code = 0 then [0xc0, 0x80]
  else if code < 0x80 then [UInt8.ofNat code]
  else if code < 0x800 then [UInt8.ofNat (0xc0 + code / 64), UInt8.ofNat (0x80 + code % 64)]
  else if code < 0x10000 then threeBytes code
  else threeBytes (0xd800 + (code - 0x10000) / 0x400) ++ threeBytes (0xdc00 + (code - 0x10000) % 0x400)

def encodeModified (s : String) : List UInt8 := s.toList.flatMap encodeModifiedChar

end Restack.Text
