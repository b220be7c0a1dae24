import Mathlib
import Restack.Proofs.Outcome
import Restack.Proofs.Bytes.Leb128

namespace Restack

-- What a reader gave stands in the bytes at the place it was read from, and what stands there is what it gives.

theorem littleEndian_lt (bytes : List UInt8) : littleEndian bytes < 256 ^ bytes.length := by
  induction bytes with
  | nil => exact Nat.one_pos
  | cons b rest ih =>
    have small := b.toNat_lt
    rw [littleEndian,List.length_cons,Nat.pow_succ]
    omega

def wordAt (bytes : Bytes) (place width : Nat) : Nat := littleEndian (bytes.extract place (place + width)).toList

theorem wordAt_lt (bytes : Bytes) (place width : Nat) : wordAt bytes place width < 256 ^ width := by
  apply (littleEndian_lt _).trans_le
  apply Nat.pow_le_pow_right (by decide)
  rw [Array.length_toList,Array.size_extract]
  omega

theorem wordAt_one {bytes : Bytes} {place : Nat} (inside : place < bytes.size) : wordAt bytes place 1 = bytes[place].toNat := by
  have cut : (bytes.extract place (place + 1)).toList = [bytes[place]] := by
    rw [Array.toList_extract,List.extract_eq_take_drop,List.drop_eq_getElem_cons (by simpa using inside)]
    simp
  rw [wordAt,cut]
  simp [littleEndian]

theorem wordAt_front {front back : List UInt8} {place width : Nat} (inside : place + width ≤ front.length) :
    wordAt (front ++ back).toArray place width = wordAt front.toArray place width := by
  simp only [wordAt,List.extract_toArray,List.extract_eq_take_drop,Nat.add_sub_cancel_left]
  rw [List.drop_append_of_le_length (by omega),List.take_append_of_le_length (by rw [List.length_drop]; omega)]

-- Bytes that stand at a place, one by one and one part after another.

theorem cons_prefix_drop {b : UInt8} {rest all : List UInt8} {place : Nat} :
    b :: rest <+: all.drop place ↔ all[place]? = some b ∧ rest <+: all.drop (place + 1) := by
  by_cases inside : place < all.length
  · rw [List.drop_eq_getElem_cons inside,List.cons_prefix_cons,List.getElem?_eq_getElem inside,Option.some_inj,eq_comm]
  · rw [List.drop_eq_nil_of_le (Nat.not_lt.mp inside),List.getElem?_eq_none (Nat.not_lt.mp inside)]
    simp

theorem append_prefix_drop {front back all : List UInt8} {place : Nat} :
    front ++ back <+: all.drop place ↔ front <+: all.drop place ∧ back <+: all.drop (place + front.length) := by
  induction front generalizing place with
  | nil => simp
  | cons b rest ih =>
    rw [List.cons_append,cons_prefix_drop,cons_prefix_drop,ih,List.length_cons,Nat.add_right_comm,← Nat.add_assoc,and_assoc]

theorem bind_eq_error {x : Except Fault α} {f : α → Except Fault β} {fault : Fault} :
    x >>= f = .error fault ↔ x = .error fault ∨ ∃ a, x = .ok a ∧ f a = .error fault := by
  cases x with
  | error other => simp [bind,Except.bind]
  | ok a => simp [bind,Except.bind]

namespace Reader

variable {α β : Type} {r : Reader α} {a : α} {bytes : Bytes} {start stop width : Nat} {fault : Fault}

theorem valueAt_ok : r.valueAt bytes start = .ok a ↔ ∃ stop, r bytes start = .ok (a,stop) := by
  unfold valueAt
  cases r bytes start with
  | error fault => simp
  | ok result =>
    obtain ⟨value,stop⟩ := result
    simp

theorem valueAt_error : r.valueAt bytes start = .error fault ↔ r bytes start = .error fault := by
  unfold valueAt
  cases r bytes start <;> simp

theorem bind_error {f : α → Reader β} : (r >>= f) bytes start = .error fault ↔
    r bytes start = .error fault ∨ ∃ a middle, r bytes start = .ok (a,middle) ∧ f a bytes middle = .error fault := by
  change Reader.bind r f bytes start = _ ↔ _
  unfold Reader.bind
  cases r bytes start with
  | error other => simp
  | ok result =>
    obtain ⟨value,middle⟩ := result
    simp

theorem bind_read {f : α → Reader β} {middle : Nat} (read : r bytes start = .ok (a,middle)) : (r >>= f) bytes start = f a bytes middle := by
  change Reader.bind r f bytes start = _
  rw [Reader.bind,read]

theorem elsewhere_ok {place : Nat} : elsewhere place r bytes start = .ok (a,stop) ↔ r.valueAt bytes place = .ok a ∧ start = stop := by
  unfold elsewhere valueAt
  cases r bytes place with
  | error fault => simp
  | ok result => simp

theorem elsewhere_error {place : Nat} : elsewhere place r bytes start = .error fault ↔ r bytes place = .error fault := by
  unfold elsewhere
  cases r bytes place <;> simp

theorem offset_bind {f : Nat → Reader β} : (offset >>= f) bytes start = f start bytes start := rfl

theorem size_bind {f : Nat → Reader β} : (size >>= f) bytes start = f bytes.size bytes start := rfl

theorem word_ok {format : WordFormat} {n : Nat} : word format width bytes start = .ok (n,stop) ↔
    start + width ≤ bytes.size ∧ wordAt bytes start width = n ∧ start + width = stop := by
  unfold word
  by_cases short : bytes.size < start + width
  · rw [if_pos short]
    simp [Nat.not_le.mpr short]
  · rw [if_neg short]
    simp [Nat.not_lt.mp short,wordAt]

theorem u1_ok {b : UInt8} : u1 bytes start = .ok (b,stop) ↔ bytes[start]? = some b ∧ start + 1 = stop := by
  unfold u1
  simp only [reader_bind_ok,word_ok,reader_pure_ok]
  constructor
  · intro done
    obtain ⟨n,middle,⟨inside,rfl,rfl⟩,rfl,rfl⟩ := done
    refine ⟨?_,rfl⟩
    rw [wordAt_one inside,UInt8.ofNat_toNat]
    exact Array.getElem?_eq_getElem inside
  · intro stands
    obtain ⟨found,rfl⟩ := stands
    obtain ⟨inside,rfl⟩ := Array.getElem?_eq_some_iff.mp found
    refine ⟨_,_,⟨inside,rfl,rfl⟩,?_,rfl⟩
    rw [wordAt_one inside,UInt8.ofNat_toNat]

theorem u2_ok {n : UInt16} : u2 bytes start = .ok (n,stop) ↔
    start + 2 ≤ bytes.size ∧ n.toNat = wordAt bytes start 2 ∧ start + 2 = stop := by
  have small := wordAt_lt bytes start 2
  unfold u2
  simp only [reader_bind_ok,word_ok,reader_pure_ok]
  constructor
  · intro done
    obtain ⟨n,middle,⟨inside,rfl,rfl⟩,rfl,rfl⟩ := done
    exact ⟨inside,UInt16.toNat_ofNat_of_lt small,rfl⟩
  · intro stands
    obtain ⟨inside,found,rfl⟩ := stands
    exact ⟨_,_,⟨inside,found.symm,rfl⟩,UInt16.ofNat_toNat,rfl⟩

theorem u2_there (inside : start + 2 ≤ bytes.size) : ∃ n, u2 bytes start = .ok (n,start + 2) ∧ n.toNat = wordAt bytes start 2 := by
  have word : (UInt16.ofNat (wordAt bytes start 2)).toNat = wordAt bytes start 2 := UInt16.toNat_ofNat_of_lt (wordAt_lt bytes start 2)
  exact ⟨_,u2_ok.mpr ⟨inside,word,rfl⟩,word⟩

theorem u4_ok {n : UInt32} : u4 bytes start = .ok (n,stop) ↔
    start + 4 ≤ bytes.size ∧ n.toNat = wordAt bytes start 4 ∧ start + 4 = stop := by
  have small := wordAt_lt bytes start 4
  unfold u4
  simp only [reader_bind_ok,word_ok,reader_pure_ok]
  constructor
  · intro done
    obtain ⟨n,middle,⟨inside,rfl,rfl⟩,rfl,rfl⟩ := done
    exact ⟨inside,UInt32.toNat_ofNat_of_lt small,rfl⟩
  · intro stands
    obtain ⟨inside,found,rfl⟩ := stands
    exact ⟨_,_,⟨inside,found.symm,rfl⟩,UInt32.ofNat_toNat,rfl⟩

theorem u4_there (inside : start + 4 ≤ bytes.size) : ∃ n, u4 bytes start = .ok (n,start + 4) ∧ n.toNat = wordAt bytes start 4 := by
  have word : (UInt32.ofNat (wordAt bytes start 4)).toNat = wordAt bytes start 4 := UInt32.toNat_ofNat_of_lt (wordAt_lt bytes start 4)
  exact ⟨_,u4_ok.mpr ⟨inside,word,rfl⟩,word⟩

-- What is read after a word is read behind it.

theorem u2_bind {f : UInt16 → Reader β} {b : β} (done : (u2 >>= f) bytes start = .ok (b,stop)) :
    ∃ n, n.toNat = wordAt bytes start 2 ∧ f n bytes (start + 2) = .ok (b,stop) := by
  obtain ⟨n,middle,read,rest⟩ := reader_bind_ok.mp done
  obtain ⟨-,word,rfl⟩ := u2_ok.mp read
  exact ⟨n,word,rest⟩

theorem u4_bind {f : UInt32 → Reader β} {b : β} (done : (u4 >>= f) bytes start = .ok (b,stop)) :
    ∃ n, n.toNat = wordAt bytes start 4 ∧ f n bytes (start + 4) = .ok (b,stop) := by
  obtain ⟨n,middle,read,rest⟩ := reader_bind_ok.mp done
  obtain ⟨-,word,rfl⟩ := u4_ok.mp read
  exact ⟨n,word,rest⟩

theorem uleb128_ok {n : UInt32} : uleb128 bytes start = .ok (n,stop) ↔ ∃ groups : List UInt8,
    Leb128.span Leb128.maxBytes groups = some groups ∧ groups <+: bytes.toList.drop start ∧
      UInt32.ofNat (Leb128.denote groups) = n ∧ start + groups.length = stop := by
  have window : lebWindow bytes start = (bytes.toList.drop start).take Leb128.maxBytes := by
    simp [lebWindow,List.extract_eq_take_drop]
  rw [uleb128,unsignedLeb,Leb128.decode_eq]
  constructor
  · intro done
    cases found : Leb128.span Leb128.maxBytes (lebWindow bytes start) with
    | none =>
      rw [found] at done
      cases done
    | some groups =>
      rw [found] at done
      cases done
      have starts := Leb128.span_starts found
      rw [window] at starts
      exact ⟨groups,Leb128.span_local found List.prefix_rfl,starts.trans (List.take_prefix _ _),rfl,rfl⟩
  · intro stands
    obtain ⟨groups,whole,starts,rfl,rfl⟩ := stands
    have found : Leb128.span Leb128.maxBytes (lebWindow bytes start) = some groups := by
      apply Leb128.span_local whole
      rw [window]
      exact List.prefix_take_iff.mpr ⟨starts,Leb128.span_length whole⟩
    rw [found]
    rfl

-- Row after row: each is read where the others before it end.

variable {row : Nat → Reader α} {rows : List α} {i count : Nat}

theorem timesFrom_ok (moves : ∀ i {bytes start a stop}, row i bytes start = .ok (a,stop) → stop = start + width) :
    (timesFrom row i count).valueAt bytes start = .ok rows ↔
      rows.length = count ∧ ∀ j a, rows[j]? = some a → (row (i + j)).valueAt bytes (start + j * width) = .ok a := by
  induction count generalizing i start rows with
  | zero =>
    rw [timesFrom,List.length_eq_zero_iff]
    constructor
    · intro done
      cases done
      exact ⟨rfl,fun j a found => nomatch found⟩
    · intro empty
      obtain ⟨rfl,-⟩ := empty
      rfl
  | succ count ih =>
    have next : ∀ j, i + 1 + j = i + (j + 1) ∧ start + width + j * width = start + (j + 1) * width := fun j =>
      ⟨by omega,by rw [Nat.succ_mul]; omega⟩
    constructor
    · intro done
      obtain ⟨stop,done⟩ := valueAt_ok.mp done
      obtain ⟨first,middle,one,done⟩ := reader_bind_ok.mp done
      obtain ⟨rest,last,others,done⟩ := reader_bind_ok.mp done
      obtain ⟨rfl,rfl⟩ := reader_pure_ok.mp done
      cases moves i one
      obtain ⟨rfl,each⟩ := ih.mp (valueAt_ok.mpr ⟨_,others⟩)
      refine ⟨rfl,?_⟩
      intro j a found
      cases j with
      | zero =>
        cases found
        rw [Nat.zero_mul]
        exact valueAt_ok.mpr ⟨_,one⟩
      | succ j =>
        have later := each j a found
        rwa [(next j).1,(next j).2] at later
    · intro rowed
      obtain ⟨long,each⟩ := rowed
      obtain ⟨first,rest,rfl⟩ := List.exists_cons_of_length_eq_add_one long
      have head := each 0 first rfl
      rw [Nat.zero_mul] at head
      obtain ⟨middle,one⟩ := valueAt_ok.mp head
      cases moves i one
      have tail : (timesFrom row (i + 1) count).valueAt bytes (start + width) = .ok rest := by
        apply ih.mpr
        refine ⟨Nat.succ.inj long,?_⟩
        intro j a found
        rw [(next j).1,(next j).2]
        exact each (j + 1) a found
      obtain ⟨stop,others⟩ := valueAt_ok.mp tail
      apply valueAt_ok.mpr
      exact ⟨stop,reader_bind_ok.mpr ⟨first,_,one,reader_bind_ok.mpr ⟨rest,stop,others,rfl⟩⟩⟩

theorem timesFrom_stop (moves : ∀ i {bytes start a stop}, row i bytes start = .ok (a,stop) → stop = start + width)
    (done : timesFrom row i count bytes start = .ok (rows,stop)) : start + count * width = stop := by
  induction count generalizing i start rows with
  | zero =>
    rw [Nat.zero_mul]
    exact (reader_pure_ok.mp done).2
  | succ count ih =>
    obtain ⟨first,middle,one,done⟩ := reader_bind_ok.mp done
    obtain ⟨rest,last,others,done⟩ := reader_bind_ok.mp done
    obtain ⟨-,rfl⟩ := reader_pure_ok.mp done
    have here := moves i one
    have there := ih others
    rw [Nat.succ_mul]
    omega

theorem times_ok (moves : ∀ bytes start a stop, r bytes start = .ok (a,stop) → stop = start + width) :
    times count r bytes start = .ok (rows,stop) ↔
      rows.length = count ∧ (∀ (j : Nat) a, rows[j]? = some a → r.valueAt bytes (start + j * width) = .ok a) ∧ start + count * width = stop := by
  have rowed : (times count r).valueAt bytes start = .ok rows ↔
      rows.length = count ∧ ∀ (j : Nat) a, rows[j]? = some a → r.valueAt bytes (start + j * width) = .ok a :=
    timesFrom_ok fun _ => moves _ _ _ _
  constructor
  · intro done
    obtain ⟨length,each⟩ := rowed.mp (valueAt_ok.mpr ⟨stop,done⟩)
    exact ⟨length,each,timesFrom_stop (fun _ => moves _ _ _ _) done⟩
  · intro stands
    obtain ⟨length,each,rfl⟩ := stands
    obtain ⟨stop,done⟩ := valueAt_ok.mp (rowed.mpr ⟨length,each⟩)
    cases timesFrom_stop (fun _ => moves _ _ _ _) done
    exact done

theorem timesFrom_error (moves : ∀ i {bytes start a stop}, row i bytes start = .ok (a,stop) → stop = start + width)
    (failed : timesFrom row i count bytes start = .error fault) :
    ∃ j < count, row (i + j) bytes (start + j * width) = .error fault := by
  induction count generalizing i start with
  | zero => cases failed
  | succ count ih =>
    rcases bind_error.mp failed with one | ⟨first,middle,one,failed⟩
    · exact ⟨0,Nat.succ_pos _,by rwa [Nat.zero_mul]⟩
    · cases moves i one
      rcases bind_error.mp failed with others | ⟨rest,last,-,failed⟩
      · obtain ⟨j,below,found⟩ := ih others
        refine ⟨j + 1,Nat.succ_lt_succ below,?_⟩
        have next : i + 1 + j = i + (j + 1) ∧ start + width + j * width = start + (j + 1) * width :=
          ⟨by omega,by rw [Nat.succ_mul]; omega⟩
        rwa [next.1,next.2] at found
      · cases failed

end Reader

end Restack
