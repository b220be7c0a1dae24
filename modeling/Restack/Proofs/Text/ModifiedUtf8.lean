import Mathlib
import Restack.Text.ModifiedUtf8

namespace Restack.Text

-- A character in modified form is read as itself, and as standard UTF-8 it is the same character or nothing.

structure TwoBytes (code : Nat) (a b : UInt8) : Prop where
  least : 0x80 ≤ code
  below : code < 0x800
  first : a.toNat = 0xc0 + code / 64
  second : b.toNat = 0x80 + code % 64

structure ThreeBytes (code : Nat) (a b d : UInt8) : Prop where
  least : 0x800 ≤ code
  below : code < 0x10000
  first : a.toNat = 0xe0 + code / 4096
  second : b.toNat = 0x80 + code / 64 % 64
  third : d.toNat = 0x80 + code % 64

-- The modified form of a character. The codes of a pair are those of surrogates.
inductive Spelled (c : Char) : List UInt8 → Prop where
  | null : c.toNat = 0 → Spelled c [0xc0,0x80]
  | one {a : UInt8} : a.toNat = c.toNat → 0 < c.toNat → c.toNat < 0x80 → Spelled c [a]
  | two {a b : UInt8} : TwoBytes c.toNat a b → Spelled c [a,b]
  | three {a b d : UInt8} : ThreeBytes c.toNat a b d → Spelled c [a,b,d]
  | pair {a b d a' b' d' : UInt8} : 0x10000 ≤ c.toNat → ThreeBytes (0xd800 + (c.toNat - 0x10000) / 0x400) a b d →
    ThreeBytes (0xdc00 + (c.toNat - 0x10000) % 0x400) a' b' d' → Spelled c [a,b,d,a',b',d']

variable {c : Char} {code : Nat} {a b d : UInt8} {data : List UInt8}

theorem charOfCode?_toNat (c : Char) : charOfCode? c.toNat = some c := by
  have valid : c.toNat.isValidChar := c.valid
  rw [charOfCode?,if_pos valid,Char.ofNat_toNat]

theorem charOfCode?_surrogate (least : 0xd800 ≤ code) (below : code < 0xe000) : charOfCode? code = none := by
  have invalid : ¬code.isValidChar := by
    unfold Nat.isValidChar
    omega
  rw [charOfCode?,if_neg invalid]

theorem toNat_lt_last (c : Char) : c.toNat < 0x110000 := by
  have valid : c.toNat.isValidChar := c.valid
  unfold Nat.isValidChar at valid
  omega

theorem threeBytes_eq (least : 0x800 ≤ code) (below : code < 0x10000) : ∃ a b d, threeBytes code = [a,b,d] ∧ ThreeBytes code a b d := by
  refine ⟨_,_,_,rfl,least,below,?_,?_,?_⟩
  all_goals
    apply UInt8.toNat_ofNat_of_lt
    change _ < 256
    omega

theorem encodeModifiedChar_spelled (c : Char) : Spelled c (encodeModifiedChar c) := by
  unfold encodeModifiedChar
  dsimp only
  split
  · rename_i zero
    exact .null zero
  · split
    · rename_i some_bit ascii
      exact .one (UInt8.toNat_ofNat_of_lt (by change _ < 256; omega)) (Nat.pos_of_ne_zero some_bit) ascii
    · split
      · rename_i least below
        refine .two ⟨by omega,below,?_,?_⟩
        all_goals
          apply UInt8.toNat_ofNat_of_lt
          change _ < 256
          omega
      · split
        · rename_i least below
          obtain ⟨a,b,d,same,three⟩ := threeBytes_eq (Nat.not_lt.mp least) below
          rw [same]
          exact .three three
        · rename_i least
          have last := toNat_lt_last c
          have above : 0x800 ≤ 0xd800 + (c.toNat - 0x10000) / 0x400 ∧ 0xd800 + (c.toNat - 0x10000) / 0x400 < 0x10000 := by omega
          have under : 0x800 ≤ 0xdc00 + (c.toNat - 0x10000) % 0x400 ∧ 0xdc00 + (c.toNat - 0x10000) % 0x400 < 0x10000 := by omega
          obtain ⟨a,b,d,front,high⟩ := threeBytes_eq above.1 above.2
          obtain ⟨a',b',d',back,low⟩ := threeBytes_eq under.1 under.2
          rw [front,back]
          exact .pair (Nat.not_lt.mp least) high low

-- No byte of it is zero, so the zero byte after a string is the first one.
theorem Spelled.pos (spelled : Spelled c data) : ∀ byte ∈ data, 0 < byte.toNat := by
  cases spelled with
  | null none => simp
  | one same pos below => simpa [same] using pos
  | two bytes => simp [bytes.first,bytes.second]
  | three bytes => simp [bytes.first,bytes.second,bytes.third]
  | pair big high low => simp [high.first,high.second,high.third,low.first,low.second,low.third]

theorem TwoBytes.twoByte? (bytes : TwoBytes code a b) : twoByte? a b = charOfCode? code := by
  obtain ⟨least,below,first,second⟩ := bytes
  have value : (0xc0 + code / 64) % 32 * 64 + (0x80 + code % 64) % 64 = code := by omega
  rw [Text.twoByte?,isContinuation,low6,first,second,value,if_pos]
  simp only [Bool.and_eq_true,decide_eq_true_eq]
  omega

theorem ThreeBytes.twoByte? (bytes : ThreeBytes code a b d) : twoByte? a b = none := by
  have lead := bytes.first
  rw [Text.twoByte?,if_neg]
  simp only [Bool.and_eq_true,decide_eq_true_eq]
  omega

theorem ThreeBytes.threeByteCode? (bytes : ThreeBytes code a b d) : threeByteCode? a b d = some code := by
  obtain ⟨least,below,first,second,third⟩ := bytes
  have value : (0xe0 + code / 4096) % 16 * 4096 + (0x80 + code / 64 % 64) % 64 * 64 + (0x80 + code % 64) % 64 = code := by omega
  rw [Text.threeByteCode?,isContinuation,isContinuation,low6,low6,first,second,third,value,if_pos]
  · exact if_pos least
  · simp only [Bool.and_eq_true,decide_eq_true_eq]
    omega

theorem ThreeBytes.fourByte? (bytes : ThreeBytes code a b d) (e : UInt8) : fourByte? a b d e = none := by
  obtain ⟨least,below,first,second,third⟩ := bytes
  rw [Text.fourByte?,if_neg]
  simp only [Bool.and_eq_true,decide_eq_true_eq]
  omega

theorem ThreeBytes.decodeModified_pair {high low : Nat} {a' b' d' : UInt8} (first : ThreeBytes high a b d) (second : ThreeBytes low a' b' d')
    (above : 0xd800 ≤ high ∧ high < 0xdc00) (under : 0xdc00 ≤ low ∧ low < 0xe000) (rest : List UInt8) :
    decodeModified (a :: b :: d :: a' :: b' :: d' :: rest) =
      (charOfCode? (surrogatePair high low)).bind fun c => (decodeModified rest).map (c :: ·) := by
  have lead := first.first
  have leads : isHighSurrogate high = true := by simpa [isHighSurrogate] using above
  have follows : isLowSurrogate low = true := by simpa [isLowSurrogate] using under
  rw [decodeModified.eq_def]
  dsimp only
  rw [if_neg (by omega),if_neg (by omega),if_neg (by omega),first.twoByte?,first.threeByteCode?]
  dsimp only
  rw [if_pos leads,second.threeByteCode?]
  dsimp only
  rw [if_pos follows]

theorem Spelled.decodeModified (spelled : Spelled c data) (rest : List UInt8) :
    decodeModified (data ++ rest) = (decodeModified rest).map (c :: ·) := by
  cases spelled with
  | null none =>
    have same : c = Char.ofNat 0 := by rw [← none,Char.ofNat_toNat]
    rw [List.cons_append,List.singleton_append,decodeModified.eq_def]
    dsimp only
    rw [if_neg (by decide),if_neg (by decide),if_pos (by decide),if_pos (by decide),same]
  | one same pos ascii =>
    rw [List.singleton_append,decodeModified.eq_def]
    dsimp only
    rw [if_neg (by omega),if_pos (by omega),same,Char.ofNat_toNat]
  | two bytes =>
    have lead := bytes.first
    have least := bytes.least
    rw [List.cons_append,List.singleton_append,decodeModified.eq_def]
    dsimp only
    rw [if_neg (by omega),if_neg (by omega),if_neg (by omega),bytes.twoByte?,charOfCode?_toNat]
  | three bytes =>
    have lead := bytes.first
    have plain : isHighSurrogate c.toNat = false := by
      have valid : c.toNat.isValidChar := c.valid
      unfold Nat.isValidChar at valid
      simp only [isHighSurrogate,Bool.and_eq_false_iff,decide_eq_false_iff_not]
      omega
    rw [List.cons_append,List.cons_append,List.singleton_append,decodeModified.eq_def]
    dsimp only
    rw [if_neg (by omega),if_neg (by omega),if_neg (by omega),bytes.twoByte?,bytes.threeByteCode?]
    dsimp only
    rw [plain,charOfCode?_toNat]
    rfl
  | pair big first second =>
    have last := toNat_lt_last c
    have joined : surrogatePair (0xd800 + (c.toNat - 0x10000) / 0x400) (0xdc00 + (c.toNat - 0x10000) % 0x400) = c.toNat := by
      unfold surrogatePair
      omega
    have pair := first.decodeModified_pair second ⟨by omega,by omega⟩ ⟨by omega,by omega⟩ rest
    rw [joined,charOfCode?_toNat] at pair
    exact pair

-- As standard UTF-8, where zero and pairs have other forms

theorem ThreeBytes.decodeUtf8_surrogate (bytes : ThreeBytes code a b d) (least : 0xd800 ≤ code) (below : code < 0xe000)
    (e : UInt8) (rest : List UInt8) : decodeUtf8 (a :: b :: d :: e :: rest) = none := by
  have lead := bytes.first
  rw [decodeUtf8.eq_def]
  dsimp only
  rw [if_neg (by omega),bytes.twoByte?,bytes.threeByteCode?]
  dsimp only
  rw [Option.bind_some,charOfCode?_surrogate least below]
  dsimp only
  rw [bytes.fourByte?,Option.bind_none]

theorem Spelled.decodeUtf8 (spelled : Spelled c data) (rest : List UInt8) :
    decodeUtf8 (data ++ rest) = none ∨ decodeUtf8 (data ++ rest) = (decodeUtf8 rest).map (c :: ·) := by
  cases spelled with
  | null none =>
    left
    have two : Text.twoByte? 0xc0 0x80 = Option.none := by decide
    have three : ∀ d, Text.threeByteCode? 0xc0 0x80 d = Option.none := fun d => by simp [Text.threeByteCode?]
    have four : ∀ d e, Text.fourByte? 0xc0 0x80 d e = Option.none := fun d e => by simp [Text.fourByte?]
    rw [List.cons_append,List.singleton_append,decodeUtf8.eq_def]
    dsimp only
    rw [if_neg (by decide),two]
    rcases rest with _ | ⟨d,_ | ⟨e,rest⟩⟩
    · rfl
    · simp [three]
    · simp [three,four]
  | one same pos ascii =>
    right
    rw [List.singleton_append,decodeUtf8.eq_def]
    dsimp only
    rw [if_pos (by omega),same,Char.ofNat_toNat]
  | two bytes =>
    right
    have lead := bytes.first
    rw [List.cons_append,List.singleton_append,decodeUtf8.eq_def]
    dsimp only
    rw [if_neg (by omega),bytes.twoByte?,charOfCode?_toNat]
  | three bytes =>
    right
    have lead := bytes.first
    rw [List.cons_append,List.cons_append,List.singleton_append,decodeUtf8.eq_def]
    dsimp only
    rw [if_neg (by omega),bytes.twoByte?,bytes.threeByteCode?]
    dsimp only
    rw [Option.bind_some,charOfCode?_toNat]
  | pair big high low =>
    left
    have last := toNat_lt_last c
    exact high.decodeUtf8_surrogate (by omega) (by omega) _ _

theorem decodeModified_encoded (chars : List Char) : decodeModified (chars.flatMap encodeModifiedChar) = some chars := by
  induction chars with
  | nil => rfl
  | cons c chars ih => rw [List.flatMap_cons,(encodeModifiedChar_spelled c).decodeModified,ih,Option.map_some]

theorem decodeUtf8_encoded (chars : List Char) :
    decodeUtf8 (chars.flatMap encodeModifiedChar) = none ∨ decodeUtf8 (chars.flatMap encodeModifiedChar) = some chars := by
  induction chars with
  | nil => exact .inr rfl
  | cons c chars ih =>
    rw [List.flatMap_cons]
    rcases (encodeModifiedChar_spelled c).decodeUtf8 (chars.flatMap encodeModifiedChar) with none | same
    · exact .inl none
    · rw [same]
      rcases ih with later | later
      · exact .inl (by rw [later,Option.map_none])
      · exact .inr (by rw [later,Option.map_some])

theorem decodeStringData_encoded (s : String) : decodeStringData (encodeModified s) = some s := by
  unfold decodeStringData encodeModified
  rcases decodeUtf8_encoded s.toList with none | same
  · rw [none,decodeModified_encoded]
    exact congrArg some (String.ofList_toList)
  · rw [same]
    exact congrArg some (String.ofList_toList)

theorem encodeModified_clean (s : String) : 0 ∉ encodeModified s := by
  intro zero
  obtain ⟨c,-,found⟩ := List.mem_flatMap.mp zero
  exact absurd ((encodeModifiedChar_spelled c).pos 0 found) (by decide)

end Restack.Text
