import Mathlib
import Restack.Bytes.Leb128

namespace Restack.Leb128

-- What groups of seven bits denote, and the groups of a number: the shift loop reads the one from the
-- other.

def continues (b : UInt8) : Bool := 0x80 ≤ b.toNat

def span : Nat → List UInt8 → Option (List UInt8)
  | 0, _ => none
  | _ + 1, [] => none
  | limit + 1, b :: rest =>
    if continues b && limit ≠ 0 then (span limit rest).map (b :: ·) else some [b]

def denote : List UInt8 → Nat
  | [] => 0
  | b :: rest => b.toNat % 128 + 128 * denote rest

def isNegative (groups : List UInt8) : Bool :=
  match groups.getLast? with
  | some b => 64 ≤ b.toNat % 128
  | none => false

def denoteSigned (groups : List UInt8) : Int :=
  if isNegative groups then (denote groups : Int) - Nat.pow 128 groups.length else denote groups

-- A number in as few groups as it needs, but at most that many.
def groupsOf : Nat → Nat → List UInt8
  | 0, _ => []
  | limit + 1, n =>
    if n < 128 then [UInt8.ofNat n] else UInt8.ofNat (n % 128 + 128) :: groupsOf limit (n / 128)

def encode (n : UInt32) : List UInt8 := groupsOf maxBytes n.toNat

def signedGroupsOf : Nat → Int → List UInt8
  | 0, _ => []
  | limit + 1, n =>
    if -64 ≤ n ∧ n < 64 then [UInt8.ofNat (n % 128).toNat]
    else UInt8.ofNat ((n % 128).toNat + 128) :: signedGroupsOf limit (n / 128)

def encodeSigned (n : Int32) : List UInt8 := signedGroupsOf maxBytes n.toInt

variable {limit count v : Nat} {bytes other groups : List UInt8} {b : UInt8}

-- The groups of a number are found at the start of the bytes, and nothing after them is looked at.

theorem span_cases (found : span limit bytes = some groups) :
    ∃ left b rest, limit = left + 1 ∧ bytes = b :: rest ∧
      (((continues b && left ≠ 0) = true ∧ ∃ later, span left rest = some later ∧ groups = b :: later) ∨
        (¬(continues b && left ≠ 0) = true ∧ groups = [b])) := by
  cases limit with
  | zero => cases found
  | succ left =>
    cases bytes with
    | nil => cases found
    | cons b rest =>
      refine ⟨left,b,rest,rfl,rfl,?_⟩
      rw [span] at found
      split at found
      · rename_i continued
        obtain ⟨later,further,rfl⟩ := Option.map_eq_some_iff.mp found
        exact .inl ⟨continued,later,further,rfl⟩
      · rename_i last
        cases found
        exact .inr ⟨last,rfl⟩

theorem span_starts (found : span limit bytes = some groups) : groups <+: bytes := by
  induction limit generalizing bytes groups with
  | zero => cases found
  | succ limit ih =>
    obtain ⟨left,b,rest,same,rfl,⟨-,later,further,rfl⟩ | ⟨-,rfl⟩⟩ := span_cases found
    · cases same
      exact List.cons_prefix_cons.mpr ⟨rfl,ih further⟩
    · exact List.cons_prefix_cons.mpr ⟨rfl,List.nil_prefix⟩

theorem span_pos (found : span limit bytes = some groups) : 0 < groups.length := by
  obtain ⟨left,b,rest,-,-,⟨-,later,-,rfl⟩ | ⟨-,rfl⟩⟩ := span_cases found
  · exact Nat.succ_pos _
  · exact Nat.one_pos

theorem span_length (found : span limit bytes = some groups) : groups.length ≤ limit := by
  induction limit generalizing bytes groups with
  | zero => cases found
  | succ limit ih =>
    obtain ⟨left,b,rest,same,-,⟨-,later,further,rfl⟩ | ⟨-,rfl⟩⟩ := span_cases found
    all_goals cases same
    · exact Nat.succ_le_succ (ih further)
    · exact Nat.succ_le_succ (Nat.zero_le _)

theorem span_local (found : span limit bytes = some groups) (starts : groups <+: other) :
    span limit other = some groups := by
  induction limit generalizing bytes other groups with
  | zero => cases found
  | succ limit ih =>
    obtain ⟨left,b,rest,same,rfl,⟨continued,later,further,rfl⟩ | ⟨last,rfl⟩⟩ := span_cases found
    all_goals
      cases same
      obtain ⟨tail,rfl⟩ := starts
      rw [List.cons_append,span]
    · rw [if_pos continued,ih further (List.prefix_append later tail),Option.map_some]
    · rw [if_neg last]

theorem denote_lt (groups : List UInt8) : denote groups < 128 ^ groups.length := by
  induction groups with
  | nil => exact Nat.one_pos
  | cons b rest ih =>
    rw [denote,List.length_cons,Nat.pow_succ]
    omega

-- Masks and shifts as arithmetic.

theorem low_toNat (b : UInt8) : (b &&& 0x7F).toUInt32.toNat = b.toNat % 128 := by
  rw [UInt8.toNat_toUInt32,UInt8.toNat_and]
  exact Nat.and_two_pow_sub_one_eq_mod b.toNat 7

theorem continues_eq (b : UInt8) : continues b = decide (b &&& 0x80 ≠ 0) := by
  revert b
  decide +kernel

theorem sign_iff (b : UInt8) : b &&& 0x40 ≠ 0 ↔ 64 ≤ b.toNat % 128 := by
  revert b
  decide +kernel

theorem shift_toNat (few : count ≤ maxBytes) : (UInt32.ofNat (7 * count)).toNat = 7 * count := by
  rw [UInt32.toNat_ofNat']
  unfold maxBytes at few
  omega

theorem shift_small (few : count ≤ maxBytes) : UInt32.ofNat (7 * count) < 32 ↔ count < maxBytes := by
  rw [UInt32.lt_iff_toNat_lt,shift_toNat few]
  change 7 * count < 32 ↔ count < 5
  unfold maxBytes at few
  omega

-- The groups before have taken the bits below, so that the or is a sum.
theorem place_ofNat (small : v < 128 ^ count) (few : count < maxBytes) :
    place (UInt32.ofNat v) b (UInt32.ofNat (7 * count)) = UInt32.ofNat (v + 128 ^ count * (b.toNat % 128)) := by
  have width : 128 ^ count = 2 ^ (7 * count) := (pow_mul 2 7 count).symm
  have sum := Nat.shiftLeft_add_eq_or_of_lt (width ▸ small) (b.toNat % 128)
  have within : 7 * count < 32 := by
    unfold maxBytes at few
    omega
  rw [place,if_pos ((shift_small few.le).mpr few)]
  apply UInt32.toNat_inj.mp
  rw [UInt32.toNat_or,UInt32.toNat_shiftLeft,low_toNat,shift_toNat few.le,Nat.mod_eq_of_lt within,UInt32.toNat_ofNat',
    UInt32.toNat_ofNat',Nat.or_comm,← Nat.or_mod_two_pow,← sum,width,Nat.shiftLeft_eq,Nat.mul_comm,Nat.add_comm]

section loop

variable (close : UInt32 → UInt8 → UInt32 → UInt32) (small : v < 128 ^ count) {left : Nat} (room : count + left + 1 = maxBytes)
include small room

theorem loop_cons (rest : List UInt8) : loop close (UInt32.ofNat v) (UInt32.ofNat (7 * count)) count (b :: rest) =
    if continues b && left ≠ 0 then
      loop close (UInt32.ofNat (v + 128 ^ count * (b.toNat % 128))) (UInt32.ofNat (7 * (count + 1))) (count + 1) rest
    else some (close (UInt32.ofNat (v + 128 ^ count * (b.toNat % 128))) b (UInt32.ofNat (7 * (count + 1))),count + 1) := by
  have shift : UInt32.ofNat (7 * count) + 7 = UInt32.ofNat (7 * (count + 1)) := by
    rw [Nat.mul_succ,UInt32.ofNat_add]
    rfl
  have last : count + 1 = maxBytes ↔ left = 0 := by omega
  rw [loop,place_ofNat small (by omega),shift]
  by_cases stops : b &&& 0x80 = 0
  · simp [stops,continues_eq]
  · simp [stops,continues_eq,last]

omit room in
theorem place_lt (b : UInt8) : v + 128 ^ count * (b.toNat % 128) < 128 ^ (count + 1) := by
  have digit := Nat.mod_lt b.toNat (show 0 < 128 by decide)
  calc v + 128 ^ count * (b.toNat % 128) < 128 ^ count + 128 ^ count * (b.toNat % 128) := Nat.add_lt_add_right small _
    _ = 128 ^ count * (b.toNat % 128 + 1) := by ring
    _ ≤ 128 ^ count * 128 := Nat.mul_le_mul_left _ digit

theorem loop_span (bytes : List UInt8) : loop close (UInt32.ofNat v) (UInt32.ofNat (7 * count)) count bytes = (span (left + 1) bytes).map fun groups =>
    (close (UInt32.ofNat (v + 128 ^ count * denote groups)) (groups.getLast?.getD 0) (UInt32.ofNat (7 * (count + groups.length))),
      count + groups.length) := by
  induction bytes generalizing v count left with
  | nil => rw [loop,span,Option.map_none]
  | cons b rest ih =>
    rw [loop_cons close small room rest,span]
    split
    · rename_i continued
      rw [Bool.and_eq_true,decide_eq_true_eq] at continued
      obtain ⟨further,rfl⟩ := Nat.exists_eq_succ_of_ne_zero continued.2
      have next : count + 1 + further + 1 = maxBytes := by omega
      rw [ih (place_lt small b) next,Option.map_map]
      cases found : span (further + 1) rest with
      | none => rfl
      | some groups =>
        have last : (b :: groups).getLast? = groups.getLast? :=
          List.getLast?_cons_of_ne_nil (List.length_pos_iff.mp (span_pos found))
        have sum : v + 128 ^ count * (b.toNat % 128) + 128 ^ (count + 1) * denote groups = v + 128 ^ count * denote (b :: groups) := by
          rw [denote]
          ring
        have length : count + 1 + groups.length = count + (b :: groups).length := by
          rw [List.length_cons]
          omega
        simp only [Option.map_some,Function.comp_apply,last,sum,length]
    · simp only [Option.map_some,List.getLast?_singleton,Option.getD_some,denote,List.length_singleton,Nat.mul_zero,Nat.add_zero]

end loop

theorem loop_start (close : UInt32 → UInt8 → UInt32 → UInt32) (bytes : List UInt8) :
    loop close 0 0 0 bytes = (span maxBytes bytes).map fun groups =>
      (close (UInt32.ofNat (denote groups)) (groups.getLast?.getD 0) (UInt32.ofNat (7 * groups.length)),groups.length) := by
  have room : 0 + (maxBytes - 1) + 1 = maxBytes := rfl
  have read := loop_span close (show 0 < 128 ^ 0 by decide) room bytes
  simp only [Nat.pow_zero,Nat.one_mul,Nat.zero_add] at read
  exact read

theorem decode_eq (bytes : List UInt8) :
    decode bytes = (span maxBytes bytes).map fun groups => (UInt32.ofNat (denote groups),groups.length) :=
  loop_start (fun value _ _ => value) bytes

theorem size_le (few : count < maxBytes) : 128 ^ count ≤ 2 ^ 32 := (Nat.pow_le_pow_right (by decide) (Nat.le_of_lt_succ few)).trans (by decide)

-- Above the groups the copies of the sign fill the word.
theorem or_ones (small : v < 128 ^ count) (few : count < maxBytes) :
    UInt32.ofNat v ||| (0xFFFFFFFF <<< UInt32.ofNat (7 * count)) = UInt32.ofNat (v + (2 ^ 32 - 128 ^ count)) := by
  have width : 128 ^ count = 2 ^ (7 * count) := (pow_mul 2 7 count).symm
  have sum := Nat.shiftLeft_add_eq_or_of_lt (width ▸ small) (2 ^ 32 - 1)
  have within : 7 * count < 32 := by
    unfold maxBytes at few
    omega
  have fits := size_le few
  have pos := Nat.pow_pos (n := count) (show 0 < 128 by decide)
  have ones : (0xFFFFFFFF : UInt32).toNat = 2 ^ 32 - 1 := rfl
  apply UInt32.toNat_inj.mp
  rw [UInt32.toNat_or,UInt32.toNat_shiftLeft,ones,shift_toNat few.le,Nat.mod_eq_of_lt within,UInt32.toNat_ofNat',
    UInt32.toNat_ofNat',Nat.or_comm,← Nat.or_mod_two_pow,← sum,Nat.shiftLeft_eq,← width]
  omega

theorem toInt32_ofNat {n : Nat} {z : Int} (same : (n : Int) % 2 ^ 32 = z % 2 ^ 32) : (UInt32.ofNat n).toInt32 = Int32.ofInt z := by
  apply Int32.toBitVec_inj.mp
  apply BitVec.eq_of_toNat_eq
  simp
  omega

theorem extend_denote (more : groups ≠ []) (few : groups.length ≤ maxBytes) :
    (extend (UInt32.ofNat (denote groups)) (groups.getLast?.getD 0) (UInt32.ofNat (7 * groups.length))).toInt32 =
      Int32.ofInt (denoteSigned groups) := by
  have sign : isNegative groups = true ↔ groups.getLast?.getD 0 &&& 0x40 ≠ 0 := by
    rw [sign_iff,isNegative,List.getLast?_eq_some_getLast more]
    simp
  unfold extend denoteSigned
  by_cases negative : isNegative groups = true
  · by_cases room : groups.length < maxBytes
    · rw [if_pos ⟨sign.mp negative,(shift_small few).mpr room⟩,if_pos negative,or_ones (denote_lt groups) room]
      apply toInt32_ofNat
      have fits := size_le room
      rw [Nat.pow_eq]
      omega
    · rw [if_neg (fun both => room ((shift_small few).mp both.2)),if_pos negative]
      have five : groups.length = 5 := Nat.le_antisymm few (Nat.not_lt.mp room)
      apply toInt32_ofNat
      rw [five,Nat.pow_eq]
      omega
  · rw [if_neg (fun both => negative (sign.mpr both.1)),if_neg negative]
    exact toInt32_ofNat rfl

theorem decodeSigned_eq (bytes : List UInt8) :
    decodeSigned bytes = (span maxBytes bytes).map fun groups => (Int32.ofInt (denoteSigned groups),groups.length) := by
  rw [decodeSigned,loop_start,Option.map_map]
  cases found : span maxBytes bytes with
  | none => rfl
  | some groups =>
    have more := List.length_pos_iff.mp (span_pos found)
    simp only [Option.map_some,Function.comp_apply,extend_denote more (span_length found)]

-- A number is what its shortest groups denote.

theorem denote_groupsOf {n : Nat} (small : n < 128 ^ limit) : denote (groupsOf limit n) = n := by
  induction limit generalizing n with
  | zero =>
    have zero : n = 0 := by omega
    rw [groupsOf,denote,zero]
  | succ limit ih =>
    rw [Nat.pow_succ] at small
    rw [groupsOf]
    split
    · rw [denote,denote,UInt8.toNat_ofNat']
      omega
    · rw [denote,UInt8.toNat_ofNat',ih (by omega)]
      omega

theorem span_groupsOf {n : Nat} (pos : 0 < limit) (small : n < 128 ^ limit) : span limit (groupsOf limit n) = some (groupsOf limit n) := by
  induction limit generalizing n with
  | zero => omega
  | succ limit ih =>
    rw [groupsOf]
    split
    · have last : continues (UInt8.ofNat n) = false := by
        rw [continues,UInt8.toNat_ofNat',decide_eq_false_iff_not]
        omega
      simp [span,last]
    · rename_i more
      have further : limit ≠ 0 := by
        rintro rfl
        omega
      have continued : (continues (UInt8.ofNat (n % 128 + 128)) && limit ≠ 0) = true := by
        rw [continues,UInt8.toNat_ofNat',Bool.and_eq_true,decide_eq_true_eq,decide_eq_true_eq]
        exact ⟨by omega,further⟩
      rw [Nat.pow_succ] at small
      rw [span,if_pos continued,ih (by omega) (by omega),Option.map_some]

theorem fits_maxBytes (n : UInt32) : n.toNat < 128 ^ maxBytes := n.toNat_lt.trans (by decide)

theorem span_encode (n : UInt32) : span maxBytes (encode n) = some (encode n) := span_groupsOf (by decide) (fits_maxBytes n)

theorem denote_encode (n : UInt32) : denote (encode n) = n.toNat := denote_groupsOf (fits_maxBytes n)

-- Of a signed number the last group has the sign, so each group before it counts as it does in an unsigned one.

theorem denoteSigned_last (b : UInt8) : denoteSigned [b] = if 64 ≤ b.toNat % 128 then (b.toNat % 128 : Int) - 128 else b.toNat % 128 := by
  simp [denoteSigned,isNegative,denote]

theorem denoteSigned_more (b : UInt8) (more : groups ≠ []) : denoteSigned (b :: groups) = b.toNat % 128 + 128 * denoteSigned groups := by
  have last : isNegative (b :: groups) = isNegative groups := by
    rw [isNegative,isNegative,List.getLast?_cons_of_ne_nil more]
  rw [denoteSigned,denoteSigned,last,denote,List.length_cons,Nat.pow_eq,Nat.pow_eq,Nat.pow_succ]
  split
  · push_cast
    ring
  · push_cast
    ring

theorem signedGroupsOf_ne_nil (limit : Nat) (n : Int) : signedGroupsOf (limit + 1) n ≠ [] := by
  rw [signedGroupsOf]
  split <;> exact List.cons_ne_nil _ _

theorem denoteSigned_signedGroupsOf {n : Int} (low : -64 * 128 ^ limit ≤ n) (high : n < 64 * 128 ^ limit) :
    denoteSigned (signedGroupsOf (limit + 1) n) = n := by
  induction limit generalizing n with
  | zero =>
    rw [signedGroupsOf,if_pos (by omega),denoteSigned_last,UInt8.toNat_ofNat']
    split <;> omega
  | succ limit ih =>
    rw [pow_succ] at low high
    rw [signedGroupsOf]
    split
    · rw [denoteSigned_last,UInt8.toNat_ofNat']
      split <;> omega
    · rw [denoteSigned_more _ (signedGroupsOf_ne_nil limit _),ih (by omega) (by omega),UInt8.toNat_ofNat']
      omega

theorem span_signedGroupsOf {n : Int} (low : -64 * 128 ^ limit ≤ n) (high : n < 64 * 128 ^ limit) :
    span (limit + 1) (signedGroupsOf (limit + 1) n) = some (signedGroupsOf (limit + 1) n) := by
  induction limit generalizing n with
  | zero =>
    rw [signedGroupsOf,if_pos (by omega)]
    simp [span]
  | succ limit ih =>
    rw [pow_succ] at low high
    rw [signedGroupsOf]
    split
    · have last : continues (UInt8.ofNat (n % 128).toNat) = false := by
        rw [continues,UInt8.toNat_ofNat',decide_eq_false_iff_not]
        omega
      simp [span,last]
    · have continued : (continues (UInt8.ofNat ((n % 128).toNat + 128)) && limit + 1 ≠ 0) = true := by
        rw [continues,UInt8.toNat_ofNat',Bool.and_eq_true,decide_eq_true_eq,decide_eq_true_eq]
        omega
      rw [span,if_pos continued,ih (by omega) (by omega),Option.map_some]

theorem signed_fits (n : Int32) : -64 * 128 ^ 4 ≤ n.toInt ∧ n.toInt < 64 * 128 ^ 4 := by
  have low := n.le_toInt
  have high := n.toInt_lt
  omega

theorem span_encodeSigned (n : Int32) : span maxBytes (encodeSigned n) = some (encodeSigned n) :=
  span_signedGroupsOf (signed_fits n).1 (signed_fits n).2

theorem denoteSigned_encodeSigned (n : Int32) : denoteSigned (encodeSigned n) = n.toInt :=
  denoteSigned_signedGroupsOf (signed_fits n).1 (signed_fits n).2

end Restack.Leb128
