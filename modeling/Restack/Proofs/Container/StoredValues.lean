import Mathlib
import Restack.Proofs.Bytes.Places
import Restack.Proofs.EncodedValues

namespace Restack

-- Values by the bytes of a file: where each stands and where it ends, in whatever width it was stored. A value is
-- read exactly where one stands.

inductive Chain (R : Nat → α → Nat → Prop) : Nat → List α → Nat → Prop where
  | nil (place : Nat) : Chain R place [] place
  | cons {place middle stop : Nat} {a : α} {rest : List α} : R place a middle → Chain R middle rest stop → Chain R place (a :: rest) stop

def NumberAt (bytes : Bytes) (place : Nat) (n : UInt32) (stop : Nat) : Prop :=
  ∃ groups : List UInt8, Leb128.span Leb128.maxBytes groups = some groups ∧ groups <+: bytes.toList.drop place ∧
    UInt32.ofNat (Leb128.denote groups) = n ∧ place + groups.length = stop

inductive PairChain (Q : Nat → α → Nat → Prop) (R : Nat → β → Nat → Prop) : Nat → List (α × β) → Nat → Prop where
  | nil (place : Nat) : PairChain Q R place [] place
  | cons {place between middle stop : Nat} {a : α} {b : β} {rest : List (α × β)} : Q place a between → R between b middle →
    PairChain Q R middle rest stop → PairChain Q R place ((a,b) :: rest) stop

inductive ValueAt (bytes : Bytes) : Nat → Value → Nat → Prop where
  | leaf {place : Nat} {header : UInt8} {v : Value} : bytes[place]? = some header → place + header.toNat / 32 + 2 ≤ bytes.size →
    v.Stored (header.toNat % 32) (header.toNat / 32 + 1) (wordAt bytes (place + 1) (header.toNat / 32 + 1)) →
    ValueAt bytes place v (place + header.toNat / 32 + 2)
  | null {place : Nat} {header : UInt8} : bytes[place]? = some header → header.toNat % 32 = 0x1e → ValueAt bytes place .null (place + 1)
  | boolean {place : Nat} {header : UInt8} : bytes[place]? = some header → header.toNat % 32 = 0x1f →
    ValueAt bytes place (.boolean (header.toNat / 32 ≠ 0)) (place + 1)
  | array {place middle stop : Nat} {header : UInt8} {count : UInt32} {items : List Value} : bytes[place]? = some header →
    header.toNat % 32 = 0x1c → NumberAt bytes (place + 1) count middle → items.length = count.toNat →
    Chain (ValueAt bytes) middle items stop → ValueAt bytes place (.array items) stop
  | annot {place after middle stop : Nat} {header : UInt8} {type count : UInt32} {elements : List (UInt32 × Value)} :
    bytes[place]? = some header → header.toNat % 32 = 0x1d → NumberAt bytes (place + 1) type after → NumberAt bytes after count middle →
    elements.length = count.toNat → PairChain (NumberAt bytes) (ValueAt bytes) middle elements stop →
    ValueAt bytes place (.annot type elements) stop

variable {bytes : Bytes} {place stop : Nat}

def ItemsAt (bytes : Bytes) (place : Nat) (items : List Value) (stop : Nat) : Prop :=
  ∃ count middle, NumberAt bytes place count middle ∧ items.length = count.toNat ∧ Chain (ValueAt bytes) middle items stop

theorem pairChain_iff {Q : Nat → α → Nat → Prop} {R : Nat → β → Nat → Prop} {pairs : List (α × β)} : PairChain Q R place pairs stop ↔
    Chain (fun place pair stop => ∃ middle, Q place pair.1 middle ∧ R middle pair.2 stop) place pairs stop := by
  constructor
  · intro chain
    induction chain with
    | nil place => exact .nil place
    | cons one two _ ih => exact .cons ⟨_,one,two⟩ ih
  · intro chain
    induction chain with
    | nil place => exact .nil place
    | cons both _ ih =>
      obtain ⟨_,one,two⟩ := both
      exact .cons one two ih

theorem numberAt_iff {n : UInt32} : Reader.uleb128 bytes place = .ok (n,stop) ↔ NumberAt bytes place n stop := Reader.uleb128_ok

namespace Chain

variable {R S : Nat → α → Nat → Prop} {start : Nat} {items : List α}

theorem imp (each : ∀ place a stop, start ≤ place → R place a stop → S place a stop ∧ place ≤ stop) (chain : Chain R place items stop)
    (above : start ≤ place) : Chain S place items stop := by
  induction chain with
  | nil place => exact .nil place
  | cons first _ ih =>
    obtain ⟨here,forward⟩ := each _ _ _ above first
    exact .cons here (ih (above.trans forward))

theorem timesFrom_iff {r : Reader α} {i count : Nat} : Reader.timesFrom (fun _ => r) i count bytes place = .ok (items,stop) ↔
    items.length = count ∧ Chain (fun place a stop => r bytes place = .ok (a,stop)) place items stop := by
  induction count generalizing i place items with
  | zero =>
    constructor
    · intro done
      obtain ⟨rfl,rfl⟩ := reader_pure_ok.mp done
      exact ⟨rfl,.nil _⟩
    · rintro ⟨none,chain⟩
      cases chain with
      | nil => rfl
      | cons => cases none
  | succ count ih =>
    simp only [Reader.timesFrom,reader_bind_ok,reader_pure_ok]
    constructor
    · rintro ⟨first,middle,one,rest,_,others,rfl,rfl⟩
      obtain ⟨length,chain⟩ := ih.mp others
      exact ⟨congrArg (· + 1) length,.cons one chain⟩
    · rintro ⟨length,chain⟩
      cases chain with
      | nil => cases length
      | cons one chain => exact ⟨_,_,one,_,_,ih.mpr ⟨Nat.succ.inj length,chain⟩,rfl,rfl⟩

end Chain

namespace Value

open Reader

variable {v : Value} {code width n : Nat}

theorem signExtend_range (pos : 0 < width) (small : n < 256 ^ width) : -2 ^ (8 * width - 1) ≤ signExtend width n ∧
    signExtend width n < 2 ^ (8 * width - 1) ∧ (signExtend width n % 2 ^ (8 * width)).toNat = n := by
  have double : 2 ^ (8 * width) = 2 * 2 ^ (8 * width - 1) := by
    rw [← Nat.pow_succ']
    congr 1
    omega
  have whole : (2 : Int) ^ (8 * width) = (2 ^ (8 * width) : Nat) := by norm_cast
  have half : (2 : Int) ^ (8 * width - 1) = (2 ^ (8 * width - 1) : Nat) := by norm_cast
  rw [bytes_bits] at small
  rw [whole,half]
  unfold signExtend
  simp only [Nat.pow_eq]
  split
  · refine ⟨by omega,by omega,?_⟩
    rw [Int.emod_eq_of_lt (by omega) (by omega)]
    rfl
  · refine ⟨by omega,by omega,?_⟩
    rw [Int.sub_emod_right,Int.emod_eq_of_lt (by omega) (by omega)]
    rfl

theorem stored_signed {full : Nat} (told : v.signed? = some (code,full,signExtend width n)) (pos : 0 < width) (short : width ≤ full)
    (small : n < 256 ^ width) : Stored v code width n := by
  obtain ⟨low,high,same⟩ := signExtend_range pos small
  have stored := Stored.signed told pos short low high
  rwa [same] at stored

theorem stored_of_made {full : Nat} (pos : 0 < width) (small : n < 256 ^ width) (made : ofBytes? code width n = some v)
    (known : maxSize? code = some full) (short : width ≤ full) : Stored v code width n := by
  obtain ⟨low,high,-⟩ := signExtend_range pos small
  have fits : n < 256 ^ full := small.trans_le (Nat.pow_le_pow_right (by decide) short)
  have signs : (2 : Int) ^ (8 * width - 1) ≤ 2 ^ (8 * full - 1) := pow_le_pow_right₀ (by decide) (by omega)
  have shifted : n * 256 ^ (full - width) < 256 ^ full := by
    calc n * 256 ^ (full - width) < 256 ^ width * 256 ^ (full - width) := Nat.mul_lt_mul_of_pos_right small (Nat.pow_pos (by decide))
      _ = 256 ^ full := by rw [← Nat.pow_add,Nat.add_sub_cancel' short]
  unfold maxSize? at known
  split at known
  all_goals
    cases known
    try cases made
  -- Seven of the types are indices.
  any_goals
    refine .unsigned ?_ pos short small
    rw [unsigned?,UInt32.toNat_ofNat_of_lt' fits]
  · exact stored_signed (by rw [signed?,Int8.toInt_ofInt_of_le (by omega) (by omega)]) pos short small
  · exact stored_signed (by rw [signed?,Int16.toInt_ofInt_of_le (by omega) (by omega)]) pos short small
  · exact .unsigned (by rw [unsigned?,UInt16.toNat_ofNat_of_lt' fits]) pos short small
  · exact stored_signed (by rw [signed?,Int32.toInt_ofInt_of_le (by omega) (by omega)]) pos short small
  · exact .fraction (by rw [fraction?,Nat.pow_eq,← bytes_bits,UInt32.toNat_ofNat_of_lt' shifted]) pos short
  · exact stored_signed (by rw [signed?,Int64.toInt_ofInt_of_le (by omega) (by omega)]) pos short small
  · exact .fraction (by rw [fraction?,Nat.pow_eq,← bytes_bits,UInt64.toNat_ofNat_of_lt' shifted]) pos short

theorem bytes_iff (pos : 0 < width) {found : List UInt8} : Reader.times width Reader.u1 bytes place = .ok (found,stop) ↔
    place + width ≤ bytes.size ∧ found = (bytes.extract place (place + width)).toList ∧ place + width = stop := by
  have stored : ∀ j, (bytes.extract place (place + width)).toList[j]? = if j < width then bytes[place + j]? else none := by
    intro j
    rw [Array.getElem?_toList,Array.getElem?_extract]
    by_cases below : j < width
    · rw [if_pos below]
      split
      · rfl
      · exact (Array.getElem?_eq_none (by omega)).symm
    · rw [if_neg below,if_neg (by omega)]
  rw [times_ok (r := Reader.u1) fun _ _ _ _ done => (u1_ok.mp done).2.symm]
  simp only [valueAt_ok,u1_ok,Nat.mul_one]
  constructor
  · rintro ⟨rfl,each,rfl⟩
    have last := each (found.length - 1) _ (List.getElem?_eq_getElem (by omega))
    obtain ⟨_,here,-⟩ := last
    have inside := (Array.getElem?_eq_some_iff.mp here).1
    refine ⟨by omega,?_,rfl⟩
    apply List.ext_getElem?
    intro j
    rw [stored]
    split
    · rename_i below
      obtain ⟨_,here,-⟩ := each j _ (List.getElem?_eq_getElem below)
      rw [here,List.getElem?_eq_getElem below]
    · rename_i past
      exact List.getElem?_eq_none (by omega)
  · rintro ⟨inside,rfl,rfl⟩
    refine ⟨by simp; omega,?_,rfl⟩
    intro j a here
    rw [stored] at here
    split at here
    · exact ⟨_,here,rfl⟩
    · cases here

theorem leaf_iff (pos : 0 < width) {start : Nat} : leaf start code width bytes place = .ok (v,stop) ↔
    place + width ≤ bytes.size ∧ ofBytes? code width (wordAt bytes place width) = some v ∧ place + width = stop := by
  simp only [leaf,reader_bind_ok,bytes_iff pos]
  constructor
  · rintro ⟨_,_,⟨inside,rfl,rfl⟩,done⟩
    rw [← wordAt] at done
    cases made : ofBytes? code width (wordAt bytes place width) with
    | none =>
      rw [made] at done
      cases done
    | some found =>
      rw [made] at done
      obtain ⟨rfl,rfl⟩ := reader_pure_ok.mp done
      exact ⟨inside,rfl,rfl⟩
  · rintro ⟨inside,made,rfl⟩
    refine ⟨_,_,⟨inside,rfl,rfl⟩,?_⟩
    rw [← wordAt,made]
    rfl

theorem content_low (r : Reader Value) (start : Nat) {header : UInt8} (kind : header.toNat % 32 < 0x1c) :
    content r start header = match maxSize? (header.toNat % 32) with
      | none => liftM (reject (.unknownValueType (header.toNat % 32) start) : Except Fault Value)
      | some limit =>
        if limit < header.toNat / 32 + 1 then liftM (reject (.valueTooWide (header.toNat % 32) (header.toNat / 32 + 1) start) : Except Fault Value)
        else leaf start (header.toNat % 32) (header.toNat / 32 + 1) := by
  unfold content
  dsimp only
  split
  any_goals omega
  rfl

theorem content_leaf_iff (r : Reader Value) (start : Nat) {header : UInt8} (kind : header.toNat % 32 < 0x1c) :
    content r start header bytes place = .ok (v,stop) ↔ place + (header.toNat / 32 + 1) ≤ bytes.size ∧
      v.Stored (header.toNat % 32) (header.toNat / 32 + 1) (wordAt bytes place (header.toNat / 32 + 1)) ∧
        place + (header.toNat / 32 + 1) = stop := by
  have small := wordAt_lt bytes place (header.toNat / 32 + 1)
  constructor
  · intro done
    rw [content_low r start kind] at done
    cases known : maxSize? (header.toNat % 32) with
    | none =>
      rw [known] at done
      cases done
    | some full =>
      simp only [known] at done
      split_ifs at done with wide
      · cases done
      · obtain ⟨inside,made,past⟩ := (leaf_iff (Nat.succ_pos _)).mp done
        exact ⟨inside,stored_of_made (Nat.succ_pos _) small made known (by omega),past⟩
  · rintro ⟨inside,stored,past⟩
    obtain ⟨made,full,-,known,fits⟩ := stored.made
    rw [content_leaf r start rfl rfl known fits]
    exact (leaf_iff (Nat.succ_pos _)).mpr ⟨inside,made,past⟩

theorem content_array_iff (r : Reader Value) (start : Nat) {header : UInt8} (kind : header.toNat % 32 = 0x1c) :
    content r start header bytes place = .ok (v,stop) ↔ ∃ items, v = .array items ∧ itemsWith r bytes place = .ok (items,stop) := by
  simp only [content,kind,reader_bind_ok,reader_pure_ok]
  constructor
  · rintro ⟨items,_,read,rfl,rfl⟩
    exact ⟨items,rfl,read⟩
  · rintro ⟨items,rfl,read⟩
    exact ⟨items,_,read,rfl,rfl⟩

theorem content_annot_iff (r : Reader Value) (start : Nat) {header : UInt8} (kind : header.toNat % 32 = 0x1d) :
    content r start header bytes place = .ok (v,stop) ↔ ∃ type after elements, v = .annot type elements ∧
      Reader.uleb128 bytes place = .ok (type,after) ∧ elementsWith r bytes after = .ok (elements,stop) := by
  simp only [content,kind,reader_bind_ok,reader_pure_ok]
  constructor
  · rintro ⟨type,after,named,elements,_,read,rfl,rfl⟩
    exact ⟨type,after,elements,rfl,named,read⟩
  · rintro ⟨type,after,elements,rfl,named,read⟩
    exact ⟨type,after,named,elements,_,read,rfl,rfl⟩

theorem content_bare_iff (r : Reader Value) (start : Nat) {header : UInt8} (kind : 0x1d < header.toNat % 32) :
    content r start header bytes place = .ok (v,stop) ↔ ((header.toNat % 32 = 0x1e ∧ v = .null) ∨
      (header.toNat % 32 = 0x1f ∧ v = .boolean (header.toNat / 32 ≠ 0))) ∧ place = stop := by
  rcases (by omega : header.toNat % 32 = 0x1e ∨ header.toNat % 32 = 0x1f) with kind | kind
  · simp only [content,kind,reader_pure_ok]
    simp [eq_comm]
  · simp only [content,kind,reader_pure_ok]
    simp [eq_comm]

theorem level_iff {r : Reader Value} : level r bytes place = .ok (v,stop) ↔
    ∃ header, bytes[place]? = some header ∧ content r place header bytes (place + 1) = .ok (v,stop) := by
  rw [level,offset_bind,reader_bind_ok]
  simp only [u1_ok]
  constructor
  · rintro ⟨header,_,⟨here,rfl⟩,done⟩
    exact ⟨header,here,done⟩
  · rintro ⟨header,here,done⟩
    exact ⟨header,_,⟨here,rfl⟩,done⟩

-- The values in a value stand after its header.
section nested

variable {start : Nat} (above : start ≤ place)
  (each : ∀ place v stop, start ≤ place → (read bytes place = .ok (v,stop) ↔ ValueAt bytes place v stop))
include above each

theorem values_iff {items : List Value} {count : Nat} : Reader.times count read bytes place = .ok (items,stop) ↔
    items.length = count ∧ Chain (ValueAt bytes) place items stop := by
  rw [Reader.times,Chain.timesFrom_iff]
  refine and_congr_right fun _ => ⟨fun chain => chain.imp ?_ above,fun chain => chain.imp ?_ above⟩
  · intro place v stop above done
    exact ⟨(each place v stop above).mp done,Nat.le_of_succ_le (read_local.reaches done).1⟩
  · intro place v stop above stands
    have done := (each place v stop above).mpr stands
    exact ⟨done,Nat.le_of_succ_le (read_local.reaches done).1⟩

theorem itemsWith_iff {items : List Value} : itemsWith read bytes place = .ok (items,stop) ↔ ItemsAt bytes place items stop := by
  simp only [itemsWith,reader_bind_ok,ItemsAt,← numberAt_iff]
  refine exists_congr fun count => exists_congr fun middle => and_congr_right fun number => ?_
  have forward := uleb128_local.reaches number
  exact values_iff (by omega) each

theorem pairs_iff {elements : List (UInt32 × Value)} {count : Nat} :
    Reader.times count (do return ((← Reader.uleb128),(← read))) bytes place = .ok (elements,stop) ↔
      elements.length = count ∧ PairChain (NumberAt bytes) (ValueAt bytes) place elements stop := by
  rw [Reader.times,Chain.timesFrom_iff,pairChain_iff]
  simp only [reader_bind_ok,reader_pure_ok]
  refine and_congr_right fun _ => ⟨fun chain => chain.imp ?_ above,fun chain => chain.imp ?_ above⟩
  · rintro place _ _ above ⟨name,middle,number,v,_,done,rfl,rfl⟩
    have first := uleb128_local.reaches number
    have second := read_local.reaches done
    exact ⟨⟨middle,numberAt_iff.mp number,(each _ _ _ (by omega)).mp done⟩,by omega⟩
  · rintro place ⟨name,v⟩ stop above ⟨middle,number,stands⟩
    have number := numberAt_iff.mpr number
    have first := uleb128_local.reaches number
    have done := (each _ _ _ (by omega)).mpr stands
    have second := read_local.reaches done
    exact ⟨⟨name,middle,number,v,stop,done,rfl,rfl⟩,by omega⟩

theorem elementsWith_iff {elements : List (UInt32 × Value)} : elementsWith read bytes place = .ok (elements,stop) ↔
    ∃ count middle, NumberAt bytes place count middle ∧ elements.length = count.toNat ∧
      PairChain (NumberAt bytes) (ValueAt bytes) middle elements stop := by
  rw [elementsWith,reader_bind_ok]
  simp only [← numberAt_iff]
  refine exists_congr fun count => exists_congr fun middle => and_congr_right fun number => ?_
  have forward := uleb128_local.reaches number
  exact pairs_iff (by omega) each

end nested

theorem read_iff : read bytes place = .ok (v,stop) ↔ ValueAt bytes place v stop := by
  induction room : bytes.size - place using Nat.strong_induction_on generalizing place v stop with
  | _ room ih =>
    have each : place < bytes.size → ∀ later v stop, place + 1 ≤ later → (read bytes later = .ok (v,stop) ↔ ValueAt bytes later v stop) := by
      intro inside later v stop above
      exact ih (bytes.size - later) (by omega) rfl
    rw [read_level,level_iff]
    constructor
    · rintro ⟨header,here,done⟩
      have each := each (Array.getElem?_eq_some_iff.mp here).1
      rcases (by omega : header.toNat % 32 < 0x1c ∨ header.toNat % 32 = 0x1c ∨ header.toNat % 32 = 0x1d ∨ 0x1d < header.toNat % 32) with
        kind | kind | kind | kind
      · obtain ⟨inside,stored,rfl⟩ := (content_leaf_iff read place kind).mp done
        have stands := ValueAt.leaf here (by omega) stored
        rwa [show place + header.toNat / 32 + 2 = place + 1 + (header.toNat / 32 + 1) by omega] at stands
      · obtain ⟨items,rfl,listed⟩ := (content_array_iff read place kind).mp done
        obtain ⟨count,middle,number,length,chain⟩ := (itemsWith_iff le_rfl each).mp listed
        exact .array here kind number length chain
      · obtain ⟨type,after,elements,rfl,named,listed⟩ := (content_annot_iff read place kind).mp done
        have forward := uleb128_local.reaches named
        obtain ⟨count,middle,number,length,chain⟩ := (elementsWith_iff (by omega) each).mp listed
        exact .annot here kind (numberAt_iff.mp named) number length chain
      · obtain ⟨⟨null,rfl⟩ | ⟨boolean,rfl⟩,rfl⟩ := (content_bare_iff read place kind).mp done
        · exact .null here null
        · exact .boolean here boolean
    · intro stands
      cases stands with
      | leaf here inside stored =>
        obtain ⟨-,full,-,known,-⟩ := stored.made
        exact ⟨_,here,(content_leaf_iff read place (maxSize_code known)).mpr ⟨by omega,stored,by omega⟩⟩
      | null here kind => exact ⟨_,here,(content_bare_iff read place (by omega)).mpr ⟨.inl ⟨kind,rfl⟩,rfl⟩⟩
      | boolean here kind => exact ⟨_,here,(content_bare_iff read place (by omega)).mpr ⟨.inr ⟨kind,rfl⟩,rfl⟩⟩
      | array here kind number length chain =>
        have each := each (Array.getElem?_eq_some_iff.mp here).1
        exact ⟨_,here,(content_array_iff read place kind).mpr ⟨_,rfl,(itemsWith_iff le_rfl each).mpr ⟨_,_,number,length,chain⟩⟩⟩
      | annot here kind named number length chain =>
        have each := each (Array.getElem?_eq_some_iff.mp here).1
        have named := numberAt_iff.mpr named
        have forward := uleb128_local.reaches named
        exact ⟨_,here,(content_annot_iff read place kind).mpr
          ⟨_,_,_,rfl,named,(elementsWith_iff (by omega) each).mpr ⟨_,_,number,length,chain⟩⟩⟩

theorem readArray_iff {items : List Value} : readArray bytes place = .ok (items,stop) ↔ ItemsAt bytes place items stop := by
  have nested : AgreesFrom (readNested (depthAt bytes place)) read bytes place := fun later above =>
    readNested_enough (Nat.sub_le_sub_left above bytes.size)
  rw [readArray,nested.items read_local place le_rfl]
  exact itemsWith_iff le_rfl fun _ _ _ _ => read_iff

end Value

theorem ItemsAt.unique {items others : List Value} {past : Nat} (one : ItemsAt bytes place items stop) (two : ItemsAt bytes place others past) :
    items = others := by
  have same := (Value.readArray_iff.mpr one).symm.trans (Value.readArray_iff.mpr two)
  cases same
  rfl

end Restack
