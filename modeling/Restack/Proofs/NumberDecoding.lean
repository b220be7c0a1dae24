import Mathlib
import Restack.Proofs.Bytes.Places

namespace Restack

namespace Leb128

-- Numbers of at most five groups: which bytes are taken for one, which number they are, and which bytes are the shortest
-- for a number.

-- The low seven bits of every byte, the first byte lowest.
def payload (groups : List UInt8) : BitVec (7 * groups.length) :=
  BitVec.ofNat _ (Nat.ofDigits 128 (groups.map fun b => b.toNat % 128))

-- The groups of one number. Each says that another follows, except the last one; a fifth one is the last anyway.
def Run (limit : Nat) (groups : List UInt8) : Prop :=
  ∃ front last, groups = front ++ [last] ∧ front.length < limit ∧ (∀ b ∈ front, 128 ≤ b.toNat) ∧
    (last.toNat < 128 ∨ front.length + 1 = limit)

-- What a decoder of such numbers does, for the values that it gives to groups.
structure Decodes (decode : List UInt8 → Option (α × Nat)) (value : List UInt8 → α) : Prop where
  missing : ∀ bytes, decode bytes = none ↔ bytes.length < 5 ∧ ∀ b ∈ bytes, 128 ≤ b.toNat
  found : ∀ bytes a count, decode bytes = some (a,count) → 1 ≤ count ∧ count ≤ 5 ∧ count ≤ bytes.length ∧
    Run 5 (bytes.take count) ∧ a = value (bytes.take count)
  unseen : ∀ bytes a count, decode bytes = some (a,count) → ∀ rest, decode (bytes.take count ++ rest) = some (a,count)

-- Encodings of any length, and the shortest of them.

inductive Complete : List UInt8 → Prop where
  | last {b : UInt8} (stops : b.toNat < 128) : Complete [b]
  | more {b : UInt8} {groups : List UInt8} (continued : 128 ≤ b.toNat) (rest : Complete groups) : Complete (b :: groups)

def Shortest (P : List UInt8 → Prop) (groups : List UInt8) : Prop :=
  (Complete groups ∧ P groups) ∧ ∀ other, Complete other ∧ P other → groups.length ≤ other.length

variable {limit : Nat} {bytes groups other : List UInt8} {b : UInt8}

theorem denote_eq (groups : List UInt8) : denote groups = Nat.ofDigits 128 (groups.map fun b => b.toNat % 128) := by
  induction groups with
  | nil => rfl
  | cons b rest ih => rw [denote,List.map_cons,Nat.ofDigits_cons,ih]

theorem payload_toNat (groups : List UInt8) : (payload groups).toNat = denote groups := by
  have small := denote_lt groups
  rw [payload,BitVec.toNat_ofNat,← denote_eq,pow_mul]
  exact Nat.mod_eq_of_lt small

theorem isNegative_iff (b : UInt8) (rest : List UInt8) :
    isNegative (b :: rest) = true ↔ 128 ^ (b :: rest).length ≤ 2 * denote (b :: rest) := by
  induction rest generalizing b with
  | nil =>
    simp only [isNegative,denote,List.getLast?_singleton,decide_eq_true_eq,List.length_singleton]
    omega
  | cons next rest ih =>
    have last : isNegative (b :: next :: rest) = isNegative (next :: rest) := by
      rw [isNegative,isNegative,List.getLast?_cons_cons]
    have here := Nat.mod_lt b.toNat (show 0 < 128 by decide)
    have number : denote (b :: next :: rest) = b.toNat % 128 + 128 * denote (next :: rest) := rfl
    have size : 128 ^ (b :: next :: rest).length = 128 ^ (next :: rest).length * 128 := pow_succ 128 _
    rw [last,ih,number,size]
    -- The number of groups before the last is even in the size, so the first group cannot tip the scales.
    obtain ⟨half,even⟩ : ∃ half, 128 ^ (next :: rest).length = 128 * half := ⟨128 ^ rest.length,pow_succ' 128 _⟩
    omega

theorem payload_toInt (groups : List UInt8) : (payload groups).toInt = denoteSigned groups := by
  cases groups with
  | nil => rfl
  | cons b rest =>
    have negative := isNegative_iff b rest
    have width : 2 ^ (7 * (b :: rest).length) = 128 ^ (b :: rest).length := pow_mul 2 7 _
    rw [BitVec.toInt_eq_toNat_cond,payload_toNat,denoteSigned,width]
    split
    · rw [if_neg (by rw [negative]; omega)]
    · rw [if_pos (by rw [negative]; omega)]
      simp

theorem continues_iff : continues b = true ↔ 128 ≤ b.toNat := decide_eq_true_iff

theorem run_cons (here : 128 ≤ b.toNat) (later : Run limit groups) : Run (limit + 1) (b :: groups) := by
  obtain ⟨front,last,rfl,short,each,stops⟩ := later
  refine ⟨b :: front,last,rfl,?_,List.forall_mem_cons.mpr ⟨here,each⟩,?_⟩
  · rw [List.length_cons]
    omega
  · rw [List.length_cons]
    omega

theorem run_last (stops : b.toNat < 128 ∨ limit = 0) : Run (limit + 1) [b] :=
  ⟨[],b,rfl,Nat.succ_pos _,by simp,by simpa [eq_comm] using stops⟩

theorem goes_on : (continues b && decide (limit ≠ 0)) = true ↔ 128 ≤ b.toNat ∧ limit ≠ 0 := by
  rw [Bool.and_eq_true,continues_iff,decide_eq_true_iff]

theorem run_of_span (found : span limit bytes = some groups) : Run limit groups := by
  induction limit generalizing bytes groups with
  | zero => cases found
  | succ limit ih =>
    obtain ⟨left,b,rest,same,rfl,⟨continued,later,further,rfl⟩ | ⟨last,rfl⟩⟩ := span_cases found
    all_goals
      cases same
      rw [goes_on] at *
    · exact run_cons continued.1 (ih further)
    · exact run_last (by omega)

theorem span_none : span (limit + 1) bytes = none ↔ bytes.length < limit + 1 ∧ ∀ b ∈ bytes, 128 ≤ b.toNat := by
  induction limit generalizing bytes with
  | zero => cases bytes <;> simp [span]
  | succ limit ih =>
    cases bytes with
    | nil => simp [span]
    | cons b rest =>
      rw [span,List.forall_mem_cons,List.length_cons,Nat.add_lt_add_iff_right]
      by_cases here : 128 ≤ b.toNat
      · rw [if_pos (goes_on.mpr ⟨here,Nat.succ_ne_zero limit⟩),Option.map_eq_none_iff,ih]
        simp [here]
      · rw [if_neg (fun continued => here (goes_on.mp continued).1)]
        simp [here]

theorem decodes_span {decode : List UInt8 → Option (α × Nat)} {value : List UInt8 → α}
    (spans : ∀ bytes, decode bytes = (span maxBytes bytes).map fun groups => (value groups,groups.length)) : Decodes decode value := by
  have taken : ∀ bytes a count, decode bytes = some (a,count) →
      span maxBytes bytes = some (bytes.take count) ∧ (bytes.take count).length = count ∧ a = value (bytes.take count) := by
    intro bytes a count decoded
    rw [spans] at decoded
    obtain ⟨groups,whole,same⟩ := Option.map_eq_some_iff.mp decoded
    cases same
    rw [← List.prefix_iff_eq_take.mp (span_starts whole)]
    exact ⟨whole,rfl,rfl⟩
  constructor
  · intro bytes
    rw [spans,Option.map_eq_none_iff]
    exact span_none
  · intro bytes a count decoded
    obtain ⟨whole,long,rfl⟩ := taken bytes a count decoded
    have some := span_pos whole
    have few := span_length whole
    rw [long] at some few
    exact ⟨some,few,by rw [List.length_take] at long; omega,run_of_span whole,rfl⟩
  · intro bytes a count decoded rest
    obtain ⟨whole,long,rfl⟩ := taken bytes a count decoded
    rw [spans,span_local whole (List.prefix_append _ _),Option.map_some,long]

theorem Complete.ne_nil (complete : Complete groups) : groups ≠ [] := by
  cases complete <;> simp

theorem Complete.eq_of_denote (complete : Complete groups) (whole : Complete other) (long : groups.length = other.length)
    (same : denote groups = denote other) : groups = other := by
  induction complete generalizing other with
  | @last b stops =>
    cases whole with
    | @last c ends =>
      simp only [denote] at same
      rw [UInt8.toNat_inj.mp (show b.toNat = c.toNat by omega)]
    | more _ rest =>
      have empty := List.length_eq_zero_iff.mp (Nat.succ.inj long).symm
      exact absurd empty rest.ne_nil
  | @more b groups continued rest ih =>
    cases whole with
    | last _ =>
      have empty := List.length_eq_zero_iff.mp (Nat.succ.inj long)
      exact absurd empty rest.ne_nil
    | @more c others goes later =>
      simp only [denote] at same
      have first := b.toNat_lt
      have second := c.toNat_lt
      rw [UInt8.toNat_inj.mp (show b.toNat = c.toNat by omega),ih later (Nat.succ.inj long) (by omega)]

theorem shortest_iff {P : List UInt8 → Prop} (shortest : Shortest P other)
    (same : ∀ one two : List UInt8, P one → P two → one.length = two.length → denote one = denote two) :
    Shortest P groups ↔ groups = other := by
  constructor
  · rintro ⟨known,least⟩
    have long := Nat.le_antisymm (least other shortest.1) (shortest.2 groups known)
    exact known.1.eq_of_denote shortest.1.1 long (same _ _ known.2 shortest.1.2 long)
  · rintro rfl
    exact shortest

theorem groupsOf_complete {n : Nat} (small : n < 128 ^ (limit + 1)) : Complete (groupsOf (limit + 1) n) := by
  induction limit generalizing n with
  | zero =>
    rw [groupsOf,if_pos (by omega)]
    exact .last (by rw [UInt8.toNat_ofNat']; omega)
  | succ limit ih =>
    rw [pow_succ] at small
    rw [groupsOf]
    split
    · exact .last (by rw [UInt8.toNat_ofNat']; omega)
    · exact .more (by rw [UInt8.toNat_ofNat']; omega) (ih (by omega))

theorem groupsOf_length {count n : Nat} (small : n < 128 ^ (count + 1)) : (groupsOf limit n).length ≤ count + 1 := by
  induction count generalizing limit n with
  | zero =>
    cases limit with
    | zero => exact Nat.zero_le _
    | succ limit =>
      rw [groupsOf,if_pos (by omega)]
      exact Nat.le_refl _
  | succ count ih =>
    cases limit with
    | zero => exact Nat.zero_le _
    | succ limit =>
      rw [pow_succ] at small
      rw [groupsOf]
      split
      · exact Nat.succ_le_succ (Nat.zero_le _)
      · exact Nat.succ_le_succ (ih (by omega))

theorem encode_shortest (n : UInt32) : Shortest (fun groups => (payload groups).toNat = n.toNat) (encode n) := by
  refine ⟨⟨groupsOf_complete (fits_maxBytes n),(payload_toNat _).trans (denote_encode n)⟩,?_⟩
  rintro other ⟨whole,same⟩
  rw [payload_toNat] at same
  have small := denote_lt other
  obtain ⟨count,long⟩ := Nat.exists_eq_succ_of_ne_zero (List.length_pos_iff.mpr whole.ne_nil).ne'
  rw [same,long] at small
  rw [long]
  exact groupsOf_length small

theorem signedGroupsOf_complete {n : Int} (low : -64 * 128 ^ limit ≤ n) (high : n < 64 * 128 ^ limit) :
    Complete (signedGroupsOf (limit + 1) n) := by
  induction limit generalizing n with
  | zero =>
    rw [signedGroupsOf,if_pos (by omega)]
    exact .last (by rw [UInt8.toNat_ofNat']; omega)
  | succ limit ih =>
    rw [pow_succ] at low high
    rw [signedGroupsOf]
    split
    · exact .last (by rw [UInt8.toNat_ofNat']; omega)
    · exact .more (by rw [UInt8.toNat_ofNat']; omega) (ih (by omega) (by omega))

theorem signedGroupsOf_length {count : Nat} {n : Int} (low : -64 * 128 ^ count ≤ n) (high : n < 64 * 128 ^ count) :
    (signedGroupsOf limit n).length ≤ count + 1 := by
  induction count generalizing limit n with
  | zero =>
    cases limit with
    | zero => exact Nat.zero_le _
    | succ limit =>
      rw [signedGroupsOf,if_pos (by omega)]
      exact Nat.le_refl _
  | succ count ih =>
    cases limit with
    | zero => exact Nat.zero_le _
    | succ limit =>
      rw [pow_succ] at low high
      rw [signedGroupsOf]
      split
      · exact Nat.succ_le_succ (Nat.zero_le _)
      · exact Nat.succ_le_succ (ih (by omega) (by omega))

theorem encodeSigned_shortest (n : Int32) : Shortest (fun groups => (payload groups).toInt = n.toInt) (encodeSigned n) := by
  have complete : Complete (encodeSigned n) := signedGroupsOf_complete (signed_fits n).1 (signed_fits n).2
  refine ⟨⟨complete,(payload_toInt _).trans (denoteSigned_encodeSigned n)⟩,?_⟩
  rintro other ⟨whole,same⟩
  obtain ⟨count,long⟩ := Nat.exists_eq_succ_of_ne_zero (List.length_pos_iff.mpr whole.ne_nil).ne'
  have low := (payload other).le_toInt
  have high := (payload other).toInt_lt
  have half : (2 : Int) ^ (7 * other.length - 1) = 64 * 128 ^ count := by
    rw [long,show 7 * count.succ - 1 = 6 + 7 * count by omega,pow_add,pow_mul]
    norm_num
  rw [same] at low high
  rw [long]
  exact signedGroupsOf_length (by omega) (by omega)

theorem denote_of_toInt {one two : List UInt8} (long : one.length = two.length) (same : (payload one).toInt = (payload two).toInt) :
    denote one = denote two := by
  have first := denote_lt one
  have second := denote_lt two
  have size : ((Nat.pow 128 two.length : Nat) : Int) = (128 ^ two.length : Nat) := rfl
  rw [payload_toInt,payload_toInt,denoteSigned,denoteSigned,long,size] at same
  rw [long] at first
  split at same <;> split at same <;> omega

theorem decode_value (groups : List UInt8) : UInt32.ofNat (denote groups) = UInt32.ofBitVec ((payload groups).setWidth 32) := by
  apply UInt32.toNat_inj.mp
  rw [UInt32.toNat_ofNat',UInt32.toNat_ofBitVec,BitVec.toNat_setWidth,payload_toNat]

theorem decodeSigned_value (groups : List UInt8) :
    Int32.ofInt (denoteSigned groups) = Int32.ofBitVec ((payload groups).signExtend 32) := by
  rw [← payload_toInt]
  rfl

theorem span_take (limit : Nat) (bytes : List UInt8) : span limit (bytes.take limit) = span limit bytes := by
  induction limit generalizing bytes with
  | zero => rfl
  | succ limit ih =>
    cases bytes with
    | nil => rfl
    | cons b rest => rw [List.take_succ_cons,span,span,ih]

theorem span_lebWindow (bytes : Bytes) (start : Nat) :
    span maxBytes (Reader.lebWindow bytes start) = span maxBytes (bytes.toList.drop start) := by
  have window : Reader.lebWindow bytes start = (bytes.toList.drop start).take maxBytes := by
    simp [Reader.lebWindow,List.extract_eq_take_drop]
  rw [window,span_take]

end Leb128

namespace Reader

open Leb128

theorem unsignedLeb_decode (format : WordFormat) (bytes : Bytes) (start : Nat) : unsignedLeb format bytes start =
    (decode (bytes.toList.drop start)).elim (reject (.endOfStream format start)) fun found => .ok (found.1,start + found.2) := by
  rw [unsignedLeb,decode_eq,decode_eq,span_lebWindow]
  cases span maxBytes (bytes.toList.drop start) <;> rfl

theorem sleb128_decode (bytes : Bytes) (start : Nat) : sleb128 bytes start =
    (decodeSigned (bytes.toList.drop start)).elim (reject (.endOfStream .sleb128 start)) fun found => .ok (found.1,start + found.2) := by
  rw [sleb128,decodeSigned_eq,decodeSigned_eq,span_lebWindow]
  cases span maxBytes (bytes.toList.drop start) <;> rfl

end Reader

open Leb128

theorem numbers_decode_exactly :
    Decodes decode (fun groups => UInt32.ofBitVec ((payload groups).setWidth 32)) ∧
    Decodes decodeSigned (fun groups => Int32.ofBitVec ((payload groups).signExtend 32)) ∧
    (∀ n : UInt32, (∀ groups, Shortest (fun g => (payload g).toNat = n.toNat) groups ↔ groups = encode n) ∧
      ∀ rest, decode (encode n ++ rest) = some (n,(encode n).length)) ∧
    (∀ n : Int32, (∀ groups, Shortest (fun g => (payload g).toInt = n.toInt) groups ↔ groups = encodeSigned n) ∧
      ∀ rest, decodeSigned (encodeSigned n ++ rest) = some (n,(encodeSigned n).length)) ∧
    ∀ (format : WordFormat) (bytes : Bytes) (start : Nat),
      Reader.unsignedLeb format bytes start = (decode (bytes.toList.drop start)).elim (reject (.endOfStream format start))
        (fun found => .ok (found.1,start + found.2)) ∧
      Reader.sleb128 bytes start = (decodeSigned (bytes.toList.drop start)).elim (reject (.endOfStream .sleb128 start))
        fun found => .ok (found.1,start + found.2) := by
  refine ⟨decodes_span fun bytes => ?_,decodes_span fun bytes => ?_,fun n => ⟨fun groups => ?_,fun rest => ?_⟩,
    fun n => ⟨fun groups => ?_,fun rest => ?_⟩,
    fun format bytes start => ⟨Reader.unsignedLeb_decode format bytes start,Reader.sleb128_decode bytes start⟩⟩
  · simp only [decode_eq,decode_value]
  · simp only [decodeSigned_eq,decodeSigned_value]
  · refine shortest_iff (encode_shortest n) fun one two here there _ => ?_
    rw [← payload_toNat,← payload_toNat,here,there]
  · rw [decode_eq,span_local (span_encode n) (List.prefix_append _ _),Option.map_some,denote_encode,UInt32.ofNat_toNat]
  · exact shortest_iff (encodeSigned_shortest n) fun one two here there long => denote_of_toInt long (here.trans there.symm)
  · rw [decodeSigned_eq,span_local (span_encodeSigned n) (List.prefix_append _ _),Option.map_some,denoteSigned_encodeSigned,
      Int32.ofInt_toInt]

-- A fifth group ends the number whatever it says, and of its bits only the lowest four count, the sign not among them.
example : decode [0xff,0xff,0xff,0xff,0xff,0x01] = some (0xffffffff,5) := by decide

example : decodeSigned [0x80,0x80,0x80,0x80,0x47,0x01] = some (0x70000000,5) := by decide

end Restack
