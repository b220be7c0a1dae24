import Restack.Text.ModifiedUtf8

namespace Restack.Text

-- UTF-8 read without refusal. Every longest piece that could have started a
-- character and did not become one is read as U+FFFD.

def tailSize (lead : UInt8) : Nat :=
  if lead.toNat < 0xc2 then 0
  else if lead.toNat < 0xe0 then 1
  else if lead.toNat < 0xf0 then 2
  else if lead.toNat < 0xf5 then 3
  else 0

-- Whether a byte can follow a lead byte. Four of them are particular: overlong forms, surrogates
-- and codes past the last character already show in the second byte.
def canFollow (lead second : UInt8) : Bool :=
  isContinuation second &&
    match lead.toNat with
    | 0xe0 => 0xa0 ≤ second.toNat
    | 0xed => second.toNat < 0xa0
    | 0xf0 => 0x90 ≤ second.toNat
    | 0xf4 => second.toNat < 0x90
    | _ => true

def tailLength (lead : UInt8) : List UInt8 → Nat
  | [] => 0
  | second :: rest =>
    if 0 < tailSize lead && canFollow lead second then
      1 + ((rest.take (tailSize lead - 1)).takeWhile isContinuation).length
    else 0

def decodeReplacing : List UInt8 → List Char
  | [] => []
  | lead :: rest =>
    (decodeUtf8 (lead :: rest.take (tailLength lead rest))).getD ['�'] ++
      decodeReplacing (rest.drop (tailLength lead rest))
termination_by bytes => bytes.length

end Restack.Text
