import Mathlib
import Restack.Proofs.Bytes.Written
import Restack.Proofs.Container.Format
import Restack.Proofs.Text.ModifiedUtf8

namespace Restack

-- A string is read as it was stored, and no other length than its own can be declared for it.

open Reader (Finds pure_finds uleb128_finds offset_findsAt size_findsAt valueAt_ok uleb128_ok)

namespace Text

-- The units of a character. One that does not fit takes two surrogates.
def utf16Units (c : Char) : List UInt16 :=
  if c.toNat < 0x10000 then [UInt16.ofNat c.toNat]
  else [UInt16.ofNat (0xd800 + (c.toNat - 0x10000) / 0x400),UInt16.ofNat (0xdc00 + (c.toNat - 0x10000) % 0x400)]

def utf16 (s : String) : List UInt16 := s.toList.flatMap utf16Units

theorem utf16Length_eq (s : String) : utf16Length s = (utf16 s).length := by
  have counted : ∀ (chars : List Char) (total : Nat),
      chars.foldl (fun total c => total + if c.toNat < 0x10000 then 1 else 2) total = total + (chars.flatMap utf16Units).length := by
    intro chars
    induction chars with
    | nil => exact fun _ => rfl
    | cons c chars ih =>
      intro total
      have here : (utf16Units c).length = if c.toNat < 0x10000 then 1 else 2 := by
        unfold utf16Units
        split <;> rfl
      rw [List.foldl_cons,ih,List.flatMap_cons,List.length_append,here,Nat.add_assoc]
  exact (counted s.toList 0).trans (Nat.zero_add _)

end Text

-- Its number of units, its modified form and a zero byte.
def stringData (s : String) : List UInt8 :=
  Leb128.encode (UInt32.ofNat (Text.utf16 s).length) ++ (Text.encodeModified s ++ [0])

theorem readTerminated_finds {fuel : Nat} {data : List UInt8} (clean : 0 ∉ data) (room : data.length < fuel) :
    Finds (readTerminated fuel) (data ++ [0]) data := by
  intro before after
  refine readTerminated_ok.mpr ⟨clean,?_,room,?_⟩
  · simp
  · simp [Nat.add_assoc]

theorem readString_finds {s : String} (short : (Text.utf16 s).length < 2 ^ 32) : Finds readString (stringData s) s := by
  have declared : (UInt32.ofNat (Text.utf16 s).length).toNat = (Text.utf16 s).length := UInt32.toNat_ofNat_of_lt short
  rw [Reader.finds_iff]
  intro start
  apply offset_findsAt
  apply ((uleb128_finds _).at start).bind
  apply offset_findsAt
  apply size_findsAt
  intro available room
  rw [List.length_append,List.length_singleton] at room
  apply ((readTerminated_finds (Text.encodeModified_clean s) (by omega)).at _).last
  rw [Text.decodeStringData_encoded]
  dsimp only
  rw [declared,Text.utf16Length_eq,if_neg (not_not.mpr rfl)]
  exact (pure_finds s).at _

theorem readString_declared {bytes : Bytes} {start stop : Nat} {s : String} (done : readString bytes start = .ok (s,stop)) :
    ∃ declared middle, Reader.uleb128 bytes start = .ok (declared,middle) ∧ (Text.utf16 s).length = declared.toNat := by
  obtain ⟨length,data,whole,-,stands,-,same⟩ := readString_ok.mp (valueAt_ok.mpr ⟨stop,done⟩)
  have counted := (append_prefix_drop.mp stands).1
  exact ⟨_,_,uleb128_ok.mpr ⟨length,whole,counted,rfl,rfl⟩,(Text.utf16Length_eq s).symm.trans same⟩

theorem string_data_read_back :
    (∀ s : String, (Text.utf16 s).length < 2 ^ 32 → Finds readString (stringData s) s) ∧
    ∀ (bytes : Bytes) (start stop : Nat) (s : String), readString bytes start = .ok (s,stop) →
      ∃ declared middle, Reader.uleb128 bytes start = .ok (declared,middle) ∧ (Text.utf16 s).length = declared.toNat :=
  ⟨fun _ => readString_finds,fun _ _ _ _ => readString_declared⟩

-- A zero, a pair and characters of one, two and three bytes.
theorem string_data_read_back_mixed :
    readString #[0xff,6,0x61,0xc0,0x80,0xc3,0xa9,0xed,0xa0,0xbd,0xed,0xb8,0x80,0xe2,0x82,0xac,0,0x41] 1 = .ok ("a\x00é😀€",17) ∧
    ∃ declared middle,
      Reader.uleb128 #[0xff,6,0x61,0xc0,0x80,0xc3,0xa9,0xed,0xa0,0xbd,0xed,0xb8,0x80,0xe2,0x82,0xac,0,0x41] 1 = .ok (declared,middle) ∧
        (Text.utf16 "a\x00é😀€").length = declared.toNat := by
  have data : stringData "a\x00é😀€" = [6,0x61,0xc0,0x80,0xc3,0xa9,0xed,0xa0,0xbd,0xed,0xb8,0x80,0xe2,0x82,0xac,0] := by decide +kernel
  have read := string_data_read_back.1 "a\x00é😀€" (by decide +kernel) [0xff] [0x41]
  rw [data] at read
  exact ⟨read,string_data_read_back.2 _ _ _ _ read⟩

end Restack
