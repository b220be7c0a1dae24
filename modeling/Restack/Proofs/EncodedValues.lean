import Mathlib
import Restack.Proofs.Bytes.Written
import Restack.Proofs.Container.Levels

namespace Restack

-- Each value is read from each of its encodings, whatever widths its leaves were given and whatever stands around it.

open Reader (Finds pure_finds offset_finds u1_finds uleb128_finds times_finds)

namespace Value

-- The leaves by what brings back the bytes they may leave out: type, number of bytes in full, and number.

def signed? : Value → Option (Nat × Nat × Int)
  | .byte v => some (0x00,1,v.toInt)
  | .short v => some (0x02,2,v.toInt)
  | .int v => some (0x04,4,v.toInt)
  | .long v => some (0x06,8,v.toInt)
  | _ => none

def unsigned? : Value → Option (Nat × Nat × Nat)
  | .char v => some (0x03,2,v.toNat)
  | .methodType index => some (0x15,4,index.toNat)
  | .methodHandle index => some (0x16,4,index.toNat)
  | .string index => some (0x17,4,index.toNat)
  | .type index => some (0x18,4,index.toNat)
  | .field index => some (0x19,4,index.toNat)
  | .method index => some (0x1a,4,index.toNat)
  | .enum index => some (0x1b,4,index.toNat)
  | _ => none

def fraction? : Value → Option (Nat × Nat × Nat)
  | .float bits => some (0x10,4,bits.toNat)
  | .double bits => some (0x11,8,bits.toNat)
  | _ => none

inductive Stored : Value → Nat → Nat → Nat → Prop where
  | signed : v.signed? = some (code,full,n) → 0 < width → width ≤ full → -2 ^ (8 * width - 1) ≤ n → n < 2 ^ (8 * width - 1) →
    Stored v code width (n % 2 ^ (8 * width)).toNat
  | unsigned : v.unsigned? = some (code,full,n) → 0 < width → width ≤ full → n < 256 ^ width → Stored v code width n
  | fraction : v.fraction? = some (code,full,n * 256 ^ (full - width)) → 0 < width → width ≤ full → Stored v code width n

def counted (parts : List (List UInt8)) : List UInt8 := Leb128.encode (UInt32.ofNat parts.length) ++ parts.flatten

def named (names : List UInt32) (parts : List (List UInt8)) : List (List UInt8) :=
  List.zipWith (fun name part => Leb128.encode name ++ part) names parts

-- The encodings of a value, one for each choice of widths.
inductive Encodes : Value → List UInt8 → Prop where
  | leaf : Stored v code width n → Encodes v (UInt8.ofNat (32 * (width - 1) + code) :: lowBytes width n)
  | null : Encodes .null [0x1e]
  | boolean (b : Bool) : Encodes (.boolean b) [UInt8.ofNat (32 * b.toNat + 0x1f)]
  | array : items.length < 2 ^ 32 → List.Forall₂ Encodes items parts → Encodes (.array items) (0x1c :: counted parts)
  | annot (index : UInt32) : elements.length < 2 ^ 32 → List.Forall₂ Encodes (elements.map Prod.snd) parts →
    Encodes (.annot index elements) (0x1d :: (Leb128.encode index ++ counted (named (elements.map Prod.fst) parts)))

-- No list in it has more values than a count can tell.
inductive Short : Value → Prop where
  | plain : (∀ items, v ≠ .array items) → (∀ index elements, v ≠ .annot index elements) → Short v
  | array : items.length < 2 ^ 32 → (∀ v ∈ items, Short v) → Short (.array items)
  | annot : elements.length < 2 ^ 32 → (∀ element ∈ elements, Short element.2) → Short (.annot index elements)

def EncodesArray (items : List Value) (body : List UInt8) : Prop :=
  ∃ parts, items.length < 2 ^ 32 ∧ List.Forall₂ Encodes items parts ∧ body = counted parts

def EncodesAnnot (a : Annot) (body : List UInt8) : Prop :=
  ∃ parts, a.elements.length < 2 ^ 32 ∧ List.Forall₂ Encodes (a.elements.map Prod.snd) parts ∧
    body = Leb128.encode a.type ++ counted (named (a.elements.map Prod.fst) parts)

variable {v : Value} {code width n : Nat} {r : Reader Value} {body : List UInt8} {parts : List (List UInt8)} {items : List Value}
  {elements : List (UInt32 × Value)}

theorem bytes_bits (width : Nat) : 256 ^ width = 2 ^ (8 * width) := by rw [Nat.pow_mul]

theorem signExtend_low {n : Int} (pos : 0 < width) (low : -2 ^ (8 * width - 1) ≤ n) (high : n < 2 ^ (8 * width - 1)) :
    signExtend width (n % 2 ^ (8 * width)).toNat = n := by
  have double : 2 ^ (8 * width) = 2 * 2 ^ (8 * width - 1) := by
    rw [← Nat.pow_succ']
    congr 1
    omega
  have positive : 0 < 2 ^ (8 * width - 1) := Nat.two_pow_pos _
  have whole : (2 : Int) ^ (8 * width) = (2 ^ (8 * width) : Nat) := by norm_cast
  have half : (2 : Int) ^ (8 * width - 1) = (2 ^ (8 * width - 1) : Nat) := by norm_cast
  rw [half] at low high
  rw [whole]
  unfold signExtend
  simp only [Nat.pow_eq]
  rcases lt_or_ge n 0 with negative | nonnegative
  · have wrapped : n % (2 ^ (8 * width) : Nat) = n + (2 ^ (8 * width) : Nat) := by
      rw [← Int.add_emod_right]
      exact Int.emod_eq_of_lt (by omega) (by omega)
    rw [wrapped,if_neg (by omega)]
    omega
  · have same : n % (2 ^ (8 * width) : Nat) = n := Int.emod_eq_of_lt nonnegative (by omega)
    rw [same,if_pos (by omega)]
    omega

theorem fraction_bound {full : Nat} (told : v.fraction? = some (code,full,n)) : n < 256 ^ full := by
  cases v with
  | float bits =>
    cases told
    exact bits.toNat_lt
  | double bits =>
    cases told
    exact bits.toNat_lt
  | _ => cases told

theorem Stored.bounds (stored : Stored v code width n) : 0 < width ∧ n < 256 ^ width := by
  cases stored with
  | signed told pos short low high =>
    rename_i full number
    refine ⟨pos,?_⟩
    have positive : (0 : Int) < 2 ^ (8 * width) := by positivity
    have below := Int.emod_lt_of_pos number positive
    have above := Int.emod_nonneg number positive.ne'
    rw [bytes_bits]
    zify
    omega
  | unsigned told pos short small => exact ⟨pos,small⟩
  | fraction told pos short =>
    rename_i full
    refine ⟨pos,?_⟩
    have bound := fraction_bound told
    have split : 256 ^ full = 256 ^ width * 256 ^ (full - width) := by
      rw [← Nat.pow_add]
      congr 1
      omega
    rw [split] at bound
    exact Nat.lt_of_mul_lt_mul_right bound

theorem Stored.made (stored : Stored v code width n) :
    ofBytes? code width n = some v ∧ ∃ full ≤ 8, maxSize? code = some full ∧ width ≤ full := by
  cases stored with
  | signed told pos short low high =>
    cases v with
    | byte v =>
      cases told
      refine ⟨?_,1,by decide,rfl,short⟩
      simp only [ofBytes?,signExtend_low pos low high,Int8.ofInt_toInt]
    | short v =>
      cases told
      refine ⟨?_,2,by decide,rfl,short⟩
      simp only [ofBytes?,signExtend_low pos low high,Int16.ofInt_toInt]
    | int v =>
      cases told
      refine ⟨?_,4,by decide,rfl,short⟩
      simp only [ofBytes?,signExtend_low pos low high,Int32.ofInt_toInt]
    | long v =>
      cases told
      refine ⟨?_,8,by decide,rfl,short⟩
      simp only [ofBytes?,signExtend_low pos low high,Int64.ofInt_toInt]
    | _ => cases told
  | unsigned told pos short small =>
    cases v with
    | char v =>
      cases told
      refine ⟨?_,2,by decide,rfl,short⟩
      simp only [ofBytes?,UInt16.ofNat_toNat]
    | methodType index | methodHandle index | string index | type index | field index | method index | enum index =>
      cases told
      refine ⟨?_,4,by decide,rfl,short⟩
      simp only [ofBytes?,UInt32.ofNat_toNat]
    | _ => cases told
  | fraction told pos short =>
    cases v with
    | float bits =>
      simp only [fraction?,Option.some.injEq,Prod.mk.injEq] at told
      obtain ⟨rfl,rfl,same⟩ := told
      refine ⟨?_,4,by decide,rfl,short⟩
      simp only [ofBytes?]
      rw [Nat.pow_eq,← bytes_bits,← same,UInt32.ofNat_toNat]
    | double bits =>
      simp only [fraction?,Option.some.injEq,Prod.mk.injEq] at told
      obtain ⟨rfl,rfl,same⟩ := told
      refine ⟨?_,8,by decide,rfl,short⟩
      simp only [ofBytes?]
      rw [Nat.pow_eq,← bytes_bits,← same,UInt64.ofNat_toNat]
    | _ => cases told

theorem maxSize_code {full : Nat} (known : maxSize? code = some full) : code < 28 := by
  unfold maxSize? at known
  split at known <;> first | omega | cases known

theorem header_code (small : code < 32) (pos : 0 < width) (short : width ≤ 8) :
    (UInt8.ofNat (32 * (width - 1) + code)).toNat % 32 = code ∧ (UInt8.ofNat (32 * (width - 1) + code)).toNat / 32 + 1 = width := by
  rw [UInt8.toNat_ofNat']
  omega

theorem leaf_finds (start : Nat) (small : n < 256 ^ width) (made : ofBytes? code width n = some v) :
    Finds (leaf start code width) (lowBytes width n) v := by
  have stored := Reader.bytes_finds (lowBytes width n)
  rw [lowBytes_length] at stored
  intro before after
  refine reader_bind_ok.mpr ⟨_,_,stored before after,?_⟩
  rw [littleEndian_lowBytes small,made]
  rfl

theorem content_leaf {header : UInt8} {full : Nat} (r : Reader Value) (start : Nat) (coded : header.toNat % 32 = code)
    (sized : header.toNat / 32 + 1 = width) (known : maxSize? code = some full) (short : width ≤ full) :
    content r start header = leaf start code width := by
  have below := maxSize_code known
  unfold content
  dsimp only
  rw [coded,sized]
  split
  · omega
  · omega
  · omega
  · omega
  · rw [known]
    dsimp only
    rw [if_neg (by omega)]

theorem itemsWith_finds (short : items.length < 2 ^ 32) (each : List.Forall₂ (Finds r) parts items) :
    Finds (itemsWith r) (counted parts) items := by
  have count : (UInt32.ofNat parts.length).toNat = items.length := by
    rw [each.length_eq,UInt32.toNat_ofNat',Nat.mod_eq_of_lt short]
  have listed := times_finds each
  rw [← count] at listed
  exact (uleb128_finds _).bind listed

theorem elementsWith_finds (short : elements.length < 2 ^ 32) (each : List.Forall₂ (Finds r) parts (elements.map Prod.snd)) :
    Finds (elementsWith r) (counted (named (elements.map Prod.fst) parts)) elements := by
  have pairs : List.Forall₂ (Finds (do return ((← Reader.uleb128),(← r)))) (named (elements.map Prod.fst) parts) elements := by
    induction elements generalizing parts with
    | nil =>
      cases each
      exact .nil
    | cons element rest ih =>
      cases each with
      | cons first others =>
        exact .cons ((uleb128_finds element.1).bind first.map) (ih (Nat.lt_of_succ_lt short) others)
  have count : (UInt32.ofNat (named (elements.map Prod.fst) parts).length).toNat = elements.length := by
    rw [pairs.length_eq,UInt32.toNat_ofNat',Nat.mod_eq_of_lt short]
  have listed := times_finds pairs
  rw [← count] at listed
  exact (uleb128_finds _).bind listed

theorem parts_found {depth : Nat} (each : ∀ v body, Encodes v body → body.length ≤ depth → Finds r body v)
    (encoded : List.Forall₂ Encodes items parts) (room : parts.flatten.length ≤ depth) : List.Forall₂ (Finds r) parts items := by
  induction encoded with
  | nil => exact .nil
  | cons first _ ih =>
    rw [List.flatten_cons,List.length_append] at room
    exact .cons (each _ _ first (by omega)) (ih (by omega))

theorem named_length {names : List UInt32} (same : names.length = parts.length) :
    parts.flatten.length ≤ (named names parts).flatten.length := by
  induction names generalizing parts with
  | nil =>
    rw [List.length_nil] at same
    rw [List.eq_nil_of_length_eq_zero same.symm]
    exact Nat.zero_le _
  | cons name names ih =>
    cases parts with
    | nil => exact Nat.zero_le _
    | cons part parts =>
      have rest := ih (Nat.succ_inj.mp same)
      simp only [named,List.zipWith_cons_cons,List.flatten_cons,List.length_append] at rest ⊢
      omega

theorem readNested_finds {depth : Nat} (encoded : Encodes v body) (room : body.length ≤ depth) : Finds (readNested depth) body v := by
  induction depth generalizing v body with
  | zero => cases encoded <;> simp at room
  | succ depth ih =>
    have each : ∀ v body, Encodes v body → body.length ≤ depth → Finds (readNested depth) body v := fun _ _ => ih
    rw [readNested_succ]
    apply offset_finds
    intro start
    cases encoded with
    | leaf stored =>
      obtain ⟨pos,small⟩ := stored.bounds
      obtain ⟨made,full,few,known,short⟩ := stored.made
      obtain ⟨coded,sized⟩ := header_code ((maxSize_code known).trans (by decide)) pos (short.trans few)
      apply (u1_finds _).bind
      rw [content_leaf _ start coded sized known short]
      exact leaf_finds start small made
    | null => exact (u1_finds 0x1e).bind (pure_finds Value.null)
    | boolean b =>
      cases b with
      | false => exact (u1_finds 0x1f).bind (pure_finds (Value.boolean false))
      | true => exact (u1_finds 0x3f).bind (pure_finds (Value.boolean true))
    | array short listed =>
      rename_i items parts
      simp only [counted,List.length_cons,List.length_append] at room
      have fits : parts.flatten.length ≤ depth := by omega
      have inside := parts_found each listed fits
      exact (u1_finds 0x1c).bind (itemsWith_finds short inside).map
    | annot index short listed =>
      rename_i parts elements
      have same : (elements.map Prod.fst).length = parts.length := by rw [List.length_map,← listed.length_eq,List.length_map]
      have long := named_length same
      simp only [counted,List.length_cons,List.length_append] at room
      have fits : parts.flatten.length ≤ depth := by omega
      have inside := parts_found each listed fits
      exact (u1_finds 0x1d).bind ((uleb128_finds index).bind (elementsWith_finds short inside).map)

theorem room_finds {f : Nat → Reader α} {a : α} (each : ∀ {depth}, body.length ≤ depth → Finds (f depth) body a) :
    Finds (fun bytes start => f (depthAt bytes start) bytes start) body a := by
  intro before after
  apply each
  simp only [depthAt,List.size_toArray,List.length_append]
  omega

theorem read_finds (encoded : Encodes v body) : Finds read body v := room_finds (readNested_finds encoded)

theorem readArray_finds (encoded : EncodesArray items body) : Finds readArray body items := by
  obtain ⟨parts,short,listed,rfl⟩ := encoded
  have nested : ∀ {depth}, (counted parts).length ≤ depth → Finds (itemsWith (readNested depth)) (counted parts) items := by
    intro depth room
    simp only [counted,List.length_append] at room
    have fits : parts.flatten.length ≤ depth := by omega
    have inside := parts_found (fun _ _ => readNested_finds) listed fits
    exact itemsWith_finds short inside
  exact room_finds nested

theorem readAnnot_finds {a : Annot} (encoded : EncodesAnnot a body) : Finds Annot.read body a := by
  obtain ⟨parts,short,listed,rfl⟩ := encoded
  have same : (a.elements.map Prod.fst).length = parts.length := by rw [List.length_map,← listed.length_eq,List.length_map]
  have long := named_length same
  have nested : ∀ {depth}, (Leb128.encode a.type ++ counted (named (a.elements.map Prod.fst) parts)).length ≤ depth →
      Finds (Annot.readNested depth) (Leb128.encode a.type ++ counted (named (a.elements.map Prod.fst) parts)) a := by
    intro depth room
    simp only [counted,List.length_append] at room
    have fits : parts.flatten.length ≤ depth := by omega
    have inside := parts_found (fun _ _ => readNested_finds) listed fits
    exact (uleb128_finds a.type).bind (elementsWith_finds short inside).map
  exact room_finds nested

theorem parts_exist (each : ∀ v ∈ items, ∃ body, Encodes v body) : ∃ parts, List.Forall₂ Encodes items parts := by
  induction items with
  | nil => exact ⟨[],.nil⟩
  | cons first rest ih =>
    obtain ⟨body,encoded⟩ := each first List.mem_cons_self
    obtain ⟨parts,listed⟩ := ih fun v member => each v (List.mem_cons_of_mem _ member)
    exact ⟨body :: parts,.cons encoded listed⟩

theorem Short.encodes (short : Short v) : ∃ body, Encodes v body := by
  induction short with
  | array few _ ih =>
    obtain ⟨parts,listed⟩ := parts_exist ih
    exact ⟨_,.array few listed⟩
  | annot few _ ih =>
    rename_i elements index _
    have values : ∀ v ∈ elements.map Prod.snd, ∃ body, Encodes v body := by
      intro v member
      obtain ⟨element,found,rfl⟩ := List.mem_map.mp member
      exact ih element found
    obtain ⟨parts,listed⟩ := parts_exist values
    exact ⟨_,.annot index few listed⟩
  | plain noArray noAnnot =>
    rename_i v
    cases v with
    | byte v => exact ⟨_,.leaf (.signed rfl (by decide) le_rfl v.le_toInt v.toInt_lt)⟩
    | short v => exact ⟨_,.leaf (.signed rfl (by decide) le_rfl v.le_toInt v.toInt_lt)⟩
    | int v => exact ⟨_,.leaf (.signed rfl (by decide) le_rfl v.le_toInt v.toInt_lt)⟩
    | long v => exact ⟨_,.leaf (.signed rfl (by decide) le_rfl v.le_toInt v.toInt_lt)⟩
    | char v => exact ⟨_,.leaf (.unsigned rfl (by decide) le_rfl v.toNat_lt)⟩
    | methodType index | methodHandle index | string index | type index | field index | method index | enum index =>
      exact ⟨_,.leaf (.unsigned rfl (by decide) le_rfl index.toNat_lt)⟩
    | float bits =>
      have whole : (Value.float bits).fraction? = some (0x10,4,bits.toNat * 256 ^ (4 - 4)) := by simp [fraction?]
      exact ⟨_,.leaf (.fraction whole (by decide) le_rfl)⟩
    | double bits =>
      have whole : (Value.double bits).fraction? = some (0x11,8,bits.toNat * 256 ^ (8 - 8)) := by simp [fraction?]
      exact ⟨_,.leaf (.fraction whole (by decide) le_rfl)⟩
    | null => exact ⟨_,.null⟩
    | boolean b => exact ⟨_,.boolean b⟩
    | array items => exact absurd rfl (noArray items)
    | annot index elements => exact absurd rfl (noAnnot index elements)

end Value

theorem encoded_values_read :
    (∀ v body, Value.Encodes v body → Finds Value.read body v) ∧
    (∀ items body, Value.EncodesArray items body → Finds Value.readArray body items) ∧
    (∀ a body, Value.EncodesAnnot a body → Finds Annot.read body a) ∧
    ∀ v, Value.Short v → ∃ body, Value.Encodes v body :=
  ⟨fun _ _ => Value.read_finds,fun _ _ => Value.readArray_finds,fun _ _ => Value.readAnnot_finds,fun _ => Value.Short.encodes⟩

-- An array of an annotation, a float and a boolean. The integer is stored in two bytes and the float without its low half.
def mixedWidths : Value := .array [.annot 5 [(7,.int (-2))],.float 0x3f800000,.boolean true]

def mixedBody : List UInt8 := [0x1c,3, 0x1d,5,1,7, 0x24,0xfe,0xff, 0x30,0x80,0x3f, 0x3f]

theorem encoded_values_read_mixedWidths :
    Value.Encodes mixedWidths mixedBody ∧ Value.read ([0xff] ++ mixedBody ++ [0x1c,0x80]).toArray 1 = .ok (mixedWidths,14) := by
  have negative : (Value.int (-2)).signed? = some (0x04,4,-2) := rfl
  have number : Value.Encodes (.int (-2)) [0x24,0xfe,0xff] :=
    .leaf (n := 0xfffe) (.signed negative Nat.two_pos (by decide) (by decide) (by decide))
  have listed : List.Forall₂ Value.Encodes ([((7 : UInt32),Value.int (-2))].map Prod.snd) [[0x24,0xfe,0xff]] := .cons number .nil
  have annot : Value.Encodes (.annot 5 [(7,.int (-2))]) [0x1d,5,1,7,0x24,0xfe,0xff] := .annot 5 (by decide) listed
  have upper : (Value.float 0x3f800000).fraction? = some (0x10,4,0x3f80 * 256 ^ (4 - 2)) := rfl
  have fraction : Value.Encodes (.float 0x3f800000) [0x30,0x80,0x3f] := .leaf (.fraction upper Nat.two_pos (by decide))
  have encoded : Value.Encodes mixedWidths mixedBody :=
    .array (by decide) (.cons annot (.cons fraction (.cons (.boolean true) .nil)))
  exact ⟨encoded,encoded_values_read.1 _ _ encoded [0xff] [0x1c,0x80]⟩

end Restack
