import Mathlib
import Restack.Proofs.Outcome
import Restack.Proofs.Bytes.Leb128

namespace Restack

-- What was written is found again, whatever stands before and after it.

def lowBytes : Nat → Nat → List UInt8
  | 0, _ => []
  | width + 1, n => UInt8.ofNat n :: lowBytes width (n / 256)

theorem lowBytes_length (width n : Nat) : (lowBytes width n).length = width := by
  induction width generalizing n with
  | zero => rfl
  | succ width ih => rw [lowBytes,List.length_cons,ih]

theorem littleEndian_lowBytes {width n : Nat} (small : n < 256 ^ width) : littleEndian (lowBytes width n) = n := by
  induction width generalizing n with
  | zero =>
    have zero : n = 0 := by omega
    rw [lowBytes,littleEndian,zero]
  | succ width ih =>
    rw [Nat.pow_succ] at small
    rw [lowBytes,littleEndian,UInt8.toNat_ofNat',ih (by omega)]
    omega

namespace Reader

variable {α β : Type} {r : Reader α} {a : α} {b : β} {body front back : List UInt8}

def Finds (r : Reader α) (body : List UInt8) (a : α) : Prop :=
  ∀ before after : List UInt8, r (before ++ body ++ after).toArray before.length = .ok (a,before.length + body.length)

theorem pure_finds (a : α) : Finds (Pure.pure a : Reader α) [] a := fun _ _ => rfl

theorem Finds.bind {f : α → Reader β} (first : Finds r front a) (rest : Finds (f a) back b) : Finds (r >>= f) (front ++ back) b := by
  intro before after
  have one := first before (back ++ after)
  have two := rest (before ++ front) after
  rw [← List.append_assoc] at one
  rw [List.length_append] at two
  rw [← List.append_assoc before,List.length_append,← Nat.add_assoc]
  exact reader_bind_ok.mpr ⟨a,before.length + front.length,one,two⟩

theorem Finds.map {f : α → β} (found : Finds r body a) : Finds (r >>= fun a => Pure.pure (f a)) body (f a) := by
  have all := found.bind (f := fun a => Pure.pure (f a)) (pure_finds (f a))
  rwa [List.append_nil] at all

theorem offset_finds {f : Nat → Reader β} (each : ∀ n, Finds (f n) body b) : Finds (offset >>= f) body b :=
  fun before after => each before.length before after

theorem word_finds (format : WordFormat) (body : List UInt8) : Finds (word format body.length) body (littleEndian body) := by
  intro before after
  have written : ((before ++ body ++ after).toArray.extract before.length (before.length + body.length)).toList = body := by
    simp [List.extract_eq_take_drop]
  have inside : ¬(before ++ body ++ after).toArray.size < before.length + body.length := by simp
  rw [word,if_neg inside,written]

theorem u1_finds (b : UInt8) : Finds u1 [b] b := by
  have found := (word_finds .u1 [b]).map (f := UInt8.ofNat)
  have same : UInt8.ofNat (littleEndian [b]) = b := by simp [littleEndian]
  rw [same] at found
  exact found

theorem u2_finds (n : UInt16) : Finds u2 (lowBytes 2 n.toNat) n := by
  have found := (word_finds .u2 (lowBytes 2 n.toNat)).map (f := UInt16.ofNat)
  rw [littleEndian_lowBytes n.toNat_lt,UInt16.ofNat_toNat,lowBytes_length] at found
  exact found

theorem u4_finds (n : UInt32) : Finds u4 (lowBytes 4 n.toNat) n := by
  have found := (word_finds .u4 (lowBytes 4 n.toNat)).map (f := UInt32.ofNat)
  rw [littleEndian_lowBytes n.toNat_lt,UInt32.ofNat_toNat,lowBytes_length] at found
  exact found

theorem lebWindow_span {groups : List UInt8} (whole : Leb128.span Leb128.maxBytes groups = some groups) (before after : List UInt8) :
    Leb128.span Leb128.maxBytes (lebWindow (before ++ groups ++ after).toArray before.length) = some groups := by
  have window : groups <+: lebWindow (before ++ groups ++ after).toArray before.length := by
    have short := Leb128.span_length whole
    simp [lebWindow,List.extract_eq_take_drop,List.prefix_take_iff,short]
  exact Leb128.span_local whole window

theorem uleb128_finds (n : UInt32) : Finds uleb128 (Leb128.encode n) n := by
  intro before after
  rw [uleb128,unsignedLeb,Leb128.decode_eq,lebWindow_span (Leb128.span_encode n),Option.map_some,Leb128.denote_encode,UInt32.ofNat_toNat]

theorem sleb128_finds (n : Int32) : Finds sleb128 (Leb128.encodeSigned n) n := by
  intro before after
  rw [sleb128,Leb128.decodeSigned_eq,lebWindow_span (Leb128.span_encodeSigned n),Option.map_some,Leb128.denoteSigned_encodeSigned,
    Int32.ofInt_toInt]

theorem times_finds {values : List α} {parts : List (List UInt8)} (each : List.Forall₂ (Finds r) parts values) :
    Finds (times values.length r) parts.flatten values := by
  have anywhere : ∀ i, Finds (timesFrom (fun _ => r) i values.length) parts.flatten values := by
    induction each with
    | nil => exact fun _ => pure_finds []
    | cons first _ ih => exact fun i => first.bind (ih (i + 1)).map
  exact anywhere 0

theorem exactly_finds {values : List α} {parts : List (List UInt8)} {count : Nat} (each : List.Forall₂ (Finds r) parts values)
    (length : values.length = count) : Finds (exactly r count) parts.flatten ⟨values,length⟩ := by
  subst length
  induction each with
  | nil => exact pure_finds _
  | cons first _ ih => exact first.bind ih.map

theorem bytes_finds (body : List UInt8) : Finds (times body.length u1) body body := by
  have each : List.Forall₂ (Finds u1) (body.map fun b => [b]) body := by
    rw [List.forall₂_map_left_iff,List.forall₂_same]
    exact fun b _ => u1_finds b
  have all := times_finds each
  rwa [← List.flatMap_def,List.flatMap_singleton'] at all

def FindsAt (start : Nat) (r : Reader α) (body : List UInt8) (a : α) : Prop :=
  ∀ before after : List UInt8, before.length = start → r (before ++ body ++ after).toArray start = .ok (a,start + body.length)

theorem finds_iff : Finds r body a ↔ ∀ start, FindsAt start r body a := by
  constructor
  · rintro found _ before after rfl
    exact found before after
  · intro found before after
    exact found before.length before after rfl

variable {start : Nat}

theorem Finds.at (found : Finds r body a) (start : Nat) : FindsAt start r body a := finds_iff.mp found start

theorem FindsAt.bind {f : α → Reader β} (first : FindsAt start r front a) (rest : FindsAt (start + front.length) (f a) back b) :
    FindsAt start (r >>= f) (front ++ back) b := by
  intro before after here
  have one := first before (back ++ after) here
  have two := rest (before ++ front) after (by rw [List.length_append,here])
  rw [← List.append_assoc] at one
  rw [← List.append_assoc before,List.length_append,← Nat.add_assoc]
  exact reader_bind_ok.mpr ⟨a,start + front.length,one,two⟩

theorem FindsAt.last {f : α → Reader β} (found : FindsAt start r body a) (rest : FindsAt (start + body.length) (f a) [] b) :
    FindsAt start (r >>= f) body b := by
  have all := found.bind rest
  rwa [List.append_nil] at all

theorem offset_findsAt {f : Nat → Reader β} (rest : FindsAt start (f start) body b) : FindsAt start (offset >>= f) body b := rest

theorem size_findsAt {f : Nat → Reader β} (rest : ∀ available, start + body.length ≤ available → FindsAt start (f available) body b) :
    FindsAt start (size >>= f) body b := by
  intro before after here
  refine rest (before ++ body ++ after).toArray.size ?_ before after here
  rw [List.size_toArray,List.length_append,List.length_append,here]
  exact Nat.le_add_right _ _

theorem lift_findsAt {x : Except Fault α} {f : α → Reader β} (passes : x = .ok a) (rest : FindsAt start (f a) body b) :
    FindsAt start ((liftM x : Reader α) >>= f) body b := by
  intro before after here
  exact reader_bind_ok.mpr ⟨a,start,reader_lift_ok.mpr ⟨passes,rfl⟩,rest before after here⟩

theorem guard_findsAt {p : Prop} [Decidable p] {cause : Malformed} {f : Unit → Reader β} (passes : ¬p) (rest : FindsAt start (f ()) body b) :
    FindsAt start (if p then (liftM (reject cause : Except Fault Unit) : Reader Unit) >>= f else f ()) body b := by
  rw [if_neg passes]
  exact rest

theorem FindsAt.inContext (found : FindsAt start r body a) (c : Context) : FindsAt start (r.inContext c) body a :=
  fun before after here => within_eq_ok.mpr (found before after here)

end Reader

end Restack
