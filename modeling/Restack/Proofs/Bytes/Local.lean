import Mathlib
import Restack.Proofs.Outcome
import Restack.Proofs.Bytes.Leb128

namespace Restack

-- A reader answers by the bytes it takes. It moves forward over them, other bytes that are the same there give the
-- same answer, and each time it asks for bytes it gets one at least or gives up. So how long it goes on depends on
-- the bytes that are left and not on the counts it finds in them.

def SameBetween (bytes other : Bytes) (start stop : Nat) : Prop :=
  ∀ i, start ≤ i → i < stop → other[i]? = bytes[i]?

theorem SameBetween.extract {bytes other : Bytes} {start stop : Nat} (same : SameBetween bytes other start stop)
    (inside : stop ≤ bytes.size) (longer : bytes.size ≤ other.size) : other.extract start stop = bytes.extract start stop := by
  apply Array.ext_getElem?
  intro i
  rw [Array.getElem?_extract,Array.getElem?_extract,Nat.min_eq_left inside,Nat.min_eq_left (inside.trans longer)]
  split
  · exact same _ (by omega) (by omega)
  · rfl

namespace Reader

-- How often a run asks for bytes: for a word, for a number or for a block of them.
inductive Asks : {α : Type} → Reader α → Bytes → Nat → Nat → Prop where
  | pure (a : α) : Asks (Pure.pure a : Reader α) bytes start 0
  | lift (x : Except Fault α) : Asks (liftM x : Reader α) bytes start 0
  | offset : Asks offset bytes start 0
  | size : Asks size bytes start 0
  | word (format : WordFormat) (width : Nat) : Asks (word format width) bytes start 1
  | block (length : Nat) : Asks (take length) bytes start 1
  | unsignedLeb (format : WordFormat) : Asks (unsignedLeb format) bytes start 1
  | sleb128 : Asks sleb128 bytes start 1
  | inContext (c : Context) : Asks r bytes start n → Asks (r.inContext c) bytes start n
  | stopped : r bytes start = .error fault → Asks r bytes start n → Asks (r >>= next) bytes start n
  | bind : r bytes start = .ok (a,middle) → Asks r bytes start n → Asks (next a) bytes middle m →
    Asks (r >>= next) bytes start (n + m)

-- A byte for each time it asks, and one time more before it gives up.
def allowance (bytes : Bytes) (start : Nat) : Except Fault (α × Nat) → Nat
  | .ok (_,stop) => stop - start
  | .error _ => bytes.size - start + 1

variable {α β : Type} {least : Nat} {bytes : Bytes} {start : Nat}

-- What `r` reads of some bytes, `s` reads of others. They are one reader but where it is told how many bytes there are.
structure Local (least : Nat) (r s : Reader α) : Prop where
  reaches : ∀ {bytes start value stop}, r bytes start = .ok (value,stop) →
    start + least ≤ stop ∧ (stop = start ∨ stop ≤ bytes.size)
  carries : ∀ {bytes other start value stop}, r bytes start = .ok (value,stop) → bytes.size ≤ other.size →
    SameBetween bytes other start stop → s other start = .ok (value,stop)
  asks : ∀ bytes start, ∃ n ≤ allowance bytes start (r bytes start), Asks r bytes start n

theorem Local.weaken {r s : Reader α} (steady : Local least r s) {fewer : Nat} (le : fewer ≤ least) : Local fewer r s where
  reaches done := by
    have := steady.reaches done
    omega
  carries := steady.carries
  asks := steady.asks

theorem local_of_ask {r : Reader α} (asks : ∀ bytes start, Asks r bytes start 1)
    (reaches : ∀ {bytes start value stop}, r bytes start = .ok (value,stop) → start < stop ∧ stop ≤ bytes.size)
    (carries : ∀ {bytes other start value stop}, r bytes start = .ok (value,stop) → bytes.size ≤ other.size →
      SameBetween bytes other start stop → r other start = .ok (value,stop)) : Local 1 r r where
  reaches done := by
    have := reaches done
    omega
  carries := carries
  asks bytes start := by
    refine ⟨1,?_,asks bytes start⟩
    cases answer : r bytes start with
    | error fault => exact Nat.le_add_left 1 _
    | ok result =>
      have := reaches answer
      simp only [allowance]
      omega

theorem local_of_rest {r s : Reader α} (asks : ∀ bytes start, Asks r bytes start 0)
    (stays : ∀ bytes other start value stop, r bytes start = .ok (value,stop) → stop = start ∧ s other start = .ok (value,start)) :
    Local 0 r s where
  reaches done := by
    have := (stays _ #[] _ _ _ done).1
    omega
  carries done _ _ := by
    obtain ⟨rfl,told⟩ := stays _ _ _ _ _ done
    exact told
  asks bytes start := ⟨0,Nat.zero_le _,asks bytes start⟩

theorem local_of_fault {r s : Reader α} (asks : ∀ bytes start, Asks r bytes start 0)
    (fails : ∀ bytes start result, r bytes start ≠ .ok result) : Local least r s where
  reaches done := absurd done (fails _ _ _)
  carries done := absurd done (fails _ _ _)
  asks bytes start := ⟨0,Nat.zero_le _,asks bytes start⟩

theorem pure_local (a : α) : Local 0 (Pure.pure a : Reader α) (Pure.pure a) := by
  apply local_of_rest (fun _ _ => .pure a)
  intro bytes other start value stop done
  obtain ⟨rfl,rfl⟩ := reader_pure_ok.mp done
  exact ⟨rfl,rfl⟩

theorem lift_local {x y : Except Fault α} (more : ∀ a, x = .ok a → y = .ok a) : Local 0 (liftM x : Reader α) (liftM y) := by
  apply local_of_rest (fun _ _ => .lift x)
  intro bytes other start value stop done
  obtain ⟨told,rfl⟩ := reader_lift_ok.mp done
  exact ⟨rfl,reader_lift_ok.mpr ⟨more value told,rfl⟩⟩

theorem local_of_extract {r : Reader α} {width : Nat} (denoted : Bytes → α) (cause : Nat → Malformed) (pos : 0 < width)
    (asks : ∀ bytes start, Asks r bytes start 1)
    (told : ∀ bytes start, r bytes start =
      if bytes.size < start + width then reject (cause start) else .ok (denoted (bytes.extract start (start + width)),start + width)) :
    Local 1 r r := by
  apply local_of_ask asks
  · intro bytes start value stop done
    rw [told] at done
    split at done
    · cases done
    · cases done
      omega
  · intro bytes other start value stop done longer same
    rw [told] at done ⊢
    split at done
    · cases done
    · cases done
      rw [if_neg (by omega),same.extract (by omega) longer]

theorem word_local (format : WordFormat) {width : Nat} (pos : 0 < width) : Local 1 (word format width) (word format width) :=
  local_of_extract (fun found => littleEndian found.toList) (.endOfStream format) pos (fun _ _ => .word format width) fun _ _ => rfl

theorem take_local {length : Nat} (pos : 0 < length) : Local 1 (take length) (take length) :=
  local_of_extract Array.toList (.shortBuffer length) pos (fun _ _ => .block length) fun _ _ => rfl

-- The window may be longer than the number, but only the number's own groups count.
theorem span_window {groups : List UInt8} (found : Leb128.span Leb128.maxBytes (lebWindow bytes start) = some groups) :
    start < start + groups.length ∧ start + groups.length ≤ bytes.size ∧
      ∀ {other : Bytes}, bytes.size ≤ other.size → SameBetween bytes other start (start + groups.length) →
        Leb128.span Leb128.maxBytes (lebWindow other start) = some groups := by
  have pos := Leb128.span_pos found
  have starts := Leb128.span_starts found
  have short := starts.length_le
  simp only [lebWindow,Array.length_toList,Array.size_extract] at short
  refine ⟨by omega,by omega,?_⟩
  intro other longer same
  apply Leb128.span_local found
  rw [List.prefix_iff_getElem?] at starts ⊢
  intro i small
  rw [← starts i small]
  simp only [lebWindow,Array.getElem?_toList,Array.getElem?_extract]
  rw [if_pos (by omega),if_pos (by omega)]
  exact same _ (by omega) (by omega)

theorem local_of_groups {r : Reader α} (format : WordFormat) (denoted : List UInt8 → α)
    (asks : ∀ bytes start, Asks r bytes start 1)
    (told : ∀ bytes start, r bytes start = match Leb128.span Leb128.maxBytes (lebWindow bytes start) with
      | some groups => .ok (denoted groups,start + groups.length)
      | none => reject (.endOfStream format start)) : Local 1 r r := by
  apply local_of_ask asks
  · intro bytes start value stop done
    rw [told] at done
    split at done
    · rename_i found
      cases done
      exact ⟨(span_window found).1,(span_window found).2.1⟩
    · cases done
  · intro bytes other start value stop done longer same
    rw [told] at done ⊢
    split at done
    · rename_i found
      cases done
      rw [(span_window found).2.2 longer same]
    · cases done

theorem unsignedLeb_local (format : WordFormat) : Local 1 (unsignedLeb format) (unsignedLeb format) := by
  apply local_of_groups format (fun groups => UInt32.ofNat (Leb128.denote groups)) (fun _ _ => .unsignedLeb format)
  intro bytes start
  rw [unsignedLeb,Leb128.decode_eq]
  cases Leb128.span Leb128.maxBytes (lebWindow bytes start) <;> rfl

theorem sleb128_local : Local 1 sleb128 sleb128 := by
  apply local_of_groups .sleb128 (fun groups => Int32.ofInt (Leb128.denoteSigned groups)) (fun _ _ => .sleb128)
  intro bytes start
  rw [sleb128,Leb128.decodeSigned_eq]
  cases Leb128.span Leb128.maxBytes (lebWindow bytes start) <;> rfl

theorem Local.bind {r s : Reader α} {f g : α → Reader β} (first : Local least r s) {k : Nat} (rest : ∀ a, Local k (f a) (g a)) :
    Local least (r >>= f) (s >>= g) where
  reaches done := by
    obtain ⟨a,middle,one,two⟩ := reader_bind_ok.mp done
    have here := first.reaches one
    have there := (rest a).reaches two
    omega
  carries done longer same := by
    obtain ⟨a,middle,one,two⟩ := reader_bind_ok.mp done
    have here := first.reaches one
    have there := (rest a).reaches two
    have front := first.carries one longer fun i low high => same i low (by omega)
    have back := (rest a).carries two longer fun i low high => same i (by omega) high
    exact reader_bind_ok.mpr ⟨a,middle,front,back⟩
  asks bytes start := by
    obtain ⟨n,few,asked⟩ := first.asks bytes start
    cases one : r bytes start with
    | error fault =>
      have failed : (r >>= f) bytes start = .error fault := by
        change Reader.bind r f bytes start = _
        rw [Reader.bind,one]
      rw [one] at few
      exact ⟨n,by rwa [failed],.stopped one asked⟩
    | ok result =>
      obtain ⟨a,middle⟩ := result
      have passed : (r >>= f) bytes start = f a bytes middle := by
        change Reader.bind r f bytes start = _
        rw [Reader.bind,one]
      obtain ⟨m,less,further⟩ := (rest a).asks bytes middle
      have here := first.reaches one
      rw [one] at few
      refine ⟨n + m,?_,.bind one asked further⟩
      rw [passed]
      cases two : f a bytes middle with
      | error fault =>
        rw [two] at less
        simp only [allowance] at few less ⊢
        omega
      | ok result =>
        have there := (rest a).reaches two
        rw [two] at less
        simp only [allowance] at few less ⊢
        omega

-- A reader that is told where it stands or how many bytes there are. Where there are more bytes it reads on.
theorem offset_local {f g : Nat → Reader β} (each : ∀ n, Local least (f n) (g n)) : Local least (offset >>= f) (offset >>= g) where
  reaches {_ start} _ _ done := (each start).reaches done
  carries {_ _ start} _ _ done longer same := (each start).carries done longer same
  asks bytes start := by
    obtain ⟨n,few,asked⟩ := (each start).asks bytes start
    exact ⟨0 + n,by rwa [Nat.zero_add],.bind rfl .offset asked⟩

theorem size_local {f g : Nat → Reader β} (each : ∀ n m, n ≤ m → Local least (f n) (g m)) :
    Local least (size >>= f) (size >>= g) where
  reaches {bytes} _ _ _ done := (each bytes.size bytes.size le_rfl).reaches done
  carries {bytes other} _ _ _ done longer same := (each bytes.size other.size longer).carries done longer same
  asks bytes start := by
    obtain ⟨n,few,asked⟩ := (each bytes.size bytes.size le_rfl).asks bytes start
    exact ⟨0 + n,by rwa [Nat.zero_add],.bind rfl .size asked⟩

theorem guard_local {p q : Prop} [Decidable p] [Decidable q] {cause other : Malformed} {f g : Unit → Reader β} (weaker : q → p)
    (rest : Local least (f ()) (g ())) :
    Local least (if p then (liftM (reject cause : Except Fault Unit) : Reader Unit) >>= f else f ())
      (if q then (liftM (reject other : Except Fault Unit) : Reader Unit) >>= g else g ()) := by
  by_cases refused : p
  · rw [if_pos refused]
    exact local_of_fault (fun _ _ => .stopped rfl (.lift _)) fun _ _ _ done => nomatch done
  · rw [if_neg refused,if_neg (refused ∘ weaker)]
    exact rest

theorem Local.inContext {r s : Reader α} (steady : Local least r s) (c : Context) : Local least (r.inContext c) (s.inContext c) where
  reaches done := steady.reaches (within_eq_ok.mp done)
  carries done longer same := within_eq_ok.mpr (steady.carries (within_eq_ok.mp done) longer same)
  asks bytes start := by
    obtain ⟨n,few,asked⟩ := steady.asks bytes start
    refine ⟨n,few.trans_eq ?_,.inContext c asked⟩
    unfold Reader.inContext
    cases r bytes start <;> rfl

theorem timesFrom_local {r s : Nat → Reader α} (each : ∀ i, Local least (r i) (s i)) (i count : Nat) :
    Local 0 (timesFrom r i count) (timesFrom s i count) := by
  induction count generalizing i with
  | zero => exact pure_local []
  | succ count ih =>
    have more := (each i).bind fun first => (ih (i + 1)).bind fun rest => pure_local (first :: rest)
    exact more.weaken (Nat.zero_le _)

theorem times_local {r s : Reader α} (each : Local least r s) (count : Nat) : Local 0 (times count r) (times count s) :=
  timesFrom_local (fun _ => each) 0 count

theorem exactly_local {r s : Reader α} (each : Local least r s) (count : Nat) : Local 0 (exactly r count) (exactly s count) := by
  induction count with
  | zero => exact pure_local _
  | succ count ih => exact (each.bind fun first => ih.bind fun rest => pure_local _).weaken (Nat.zero_le _)

theorem u1_local : Local 1 u1 u1 := (word_local _ (by decide)).bind fun _ => pure_local _

theorem u2_local : Local 1 u2 u2 := (word_local _ (by decide)).bind fun _ => pure_local _

theorem u4_local : Local 1 u4 u4 := (word_local _ (by decide)).bind fun _ => pure_local _

theorem uleb128_local : Local 1 uleb128 uleb128 := unsignedLeb_local _

end Reader

end Restack
