import Mathlib
import Restack.Proofs.NatMap
import Restack.Proofs.ItemLocality
import Restack.Proofs.Bytes.Places
import Restack.Proofs.Container.Contents

namespace Restack

-- A stored body by its bytes alone: where its words stand, where its ranges and where its handlers, whether or not the
-- ranges lead to handlers and stay within the code.

inductive HandlersStand (bytes : Bytes) (list : Nat) : Nat → List (Nat × CatchHandler) → Nat → Prop where
  | done (place : Nat) : HandlersStand bytes list place [] place
  | next {place after past : Nat} {h : CatchHandler} {rest : List (Nat × CatchHandler)} :
    CatchHandler.read bytes (list + place) = .ok (h,list + after) → HandlersStand bytes list after rest past →
    HandlersStand bytes list place ((place,h) :: rest) past

def HandlersListed (bytes : Bytes) (list : Nat) (entries : List (Nat × CatchHandler)) (past : Nat) : Prop :=
  ∃ count first, Reader.uleb128 bytes list = .ok (count,list + first) ∧ entries.length = count.toNat ∧
    HandlersStand bytes list first entries past

-- Only sixteen bits of a place are kept, and of two places with the same bits the later one counts.
def keyedHandlers (found : NatMap CatchHandler) (entries : List (Nat × CatchHandler)) : NatMap CatchHandler :=
  entries.foldl (fun found entry => NatMap.insert (entry.1 % 65536) entry.2 found) found

structure TryItem.StandsAt (bytes : Bytes) (place : Nat) (t : TryItem) : Prop where
  inside : place + 8 ≤ bytes.size
  start : t.start.toNat = wordAt bytes place 4
  count : t.count.toNat = wordAt bytes (place + 4) 2
  handler : t.handler.toNat = wordAt bytes (place + 6) 2

-- Ranges start at an even unit, and handlers are listed after them.

def rangesPlace (start units : Nat) : Nat := start + 16 + (units + units % 2) * 2

def listPlace (start units tries : Nat) : Nat := rangesPlace start units + tries * 8

structure RangesStand (bytes : Bytes) (start units : Nat) (tries : List TryItem) (entries : List (Nat × CatchHandler)) (stop : Nat) :
    Prop where
  ranges : ∀ (j : Nat) t, tries[j]? = some t → t.StandsAt bytes (rangesPlace start units + j * 8)
  listed : if tries = [] then entries = [] ∧ stop = start + 16 + units * 2
    else ∃ past, HandlersListed bytes (listPlace start units tries.length) entries past ∧ stop = listPlace start units tries.length + past

structure CodeItem.Stands (bytes : Bytes) (start : Nat) (code : CodeItem) (entries : List (Nat × CatchHandler)) (stop : Nat) : Prop where
  registers : code.registers.toNat = wordAt bytes start 2
  ins : code.ins.toNat = wordAt bytes (start + 2) 2
  outs : code.outs.toNat = wordAt bytes (start + 4) 2
  tries : code.tries.length = wordAt bytes (start + 6) 2
  debugInfo : code.debugInfo.toNat = wordAt bytes (start + 8) 4
  size : code.units.size = wordAt bytes (start + 12) 4
  fits : code.ins.toNat ≤ code.registers.toNat
  inside : start + 16 + code.units.size * 2 ≤ bytes.size
  units : ∀ (i : Nat) unit, code.units[i]? = some unit → unit.toNat = wordAt bytes (start + 16 + i * 2) 2
  ranges : RangesStand bytes start code.units.size code.tries entries stop
  handlers : code.handlers = keyedHandlers [] entries

variable {bytes : Bytes} {start stop list place past : Nat} {entries : List (Nat × CatchHandler)} {found : NatMap CatchHandler}

theorem readHandlers_ok {codeStart i count : Nat} {result : NatMap CatchHandler} :
    CodeItem.readHandlers codeStart list i count found bytes (list + place) = .ok (result,stop) ↔
      ∃ entries past, HandlersStand bytes list place entries past ∧ entries.length = count ∧ list + past = stop ∧
        keyedHandlers found entries = result := by
  induction count generalizing i place found with
  | zero =>
    constructor
    · intro done
      obtain ⟨rfl,rfl⟩ := reader_pure_ok.mp done
      exact ⟨[],place,.done place,rfl,rfl,rfl⟩
    · intro stands
      obtain ⟨entries,past,stand,none,rfl,rfl⟩ := stands
      cases stand with
      | done => rfl
      | next => cases none
  | succ count ih =>
    rw [CodeItem.readHandlers,Reader.offset_bind,reader_bind_ok,Nat.add_sub_cancel_left]
    constructor
    · intro done
      obtain ⟨h,middle,read,rest⟩ := done
      have told : CatchHandler.read bytes (list + place) = .ok (h,middle) := within_eq_ok.mp read
      -- Reading goes forward, so the next handler has a place in the list too.
      obtain ⟨after,rfl⟩ : ∃ after, middle = list + after := ⟨middle - list,by
        have further := (readHandler_local.reaches told).1
        omega⟩
      obtain ⟨entries,past,stand,rfl,rfl,rfl⟩ := ih.mp rest
      exact ⟨(place,h) :: entries,past,.next told stand,rfl,rfl,rfl⟩
    · intro stands
      obtain ⟨entries,past,stand,length,rfl,rfl⟩ := stands
      cases stand with
      | done => cases length
      | next told stand =>
        exact ⟨_,_,within_eq_ok.mpr told,ih.mpr ⟨_,_,stand,Nat.succ.inj length,rfl,rfl⟩⟩

-- The value of a key is that of the last entry with these bits.

def LastAt (entries : List (Nat × CatchHandler)) (key place : Nat) (h : CatchHandler) : Prop :=
  ∃ before after, entries = before ++ (place,h) :: after ∧ place % 65536 = key ∧ ∀ entry ∈ after, entry.1 % 65536 ≠ key

theorem lastAt_iff {key : Nat} {h : CatchHandler} :
    LastAt entries key place h ↔ entries.reverse.find? (fun entry => entry.1 % 65536 = key) = some (place,h) := by
  rw [List.find?_eq_some_iff_append]
  constructor
  · intro last
    obtain ⟨before,after,rfl,bits,others⟩ := last
    exact ⟨by simpa using bits,after.reverse,before.reverse,by simp,by simpa using others⟩
  · intro first
    obtain ⟨bits,after,before,split,others⟩ := first
    have same : entries = before.reverse ++ (place,h) :: after.reverse := by
      rw [← List.reverse_reverse entries,split]
      simp
    exact ⟨before.reverse,after.reverse,same,by simpa using bits,by simpa using others⟩

theorem get?_keyed_eq (entries : List (Nat × CatchHandler)) (key : Nat) :
    (keyedHandlers [] entries).get? key = (entries.reverse.find? fun entry => entry.1 % 65536 = key).map Prod.snd := by
  induction entries using List.reverseRecOn with
  | nil => rfl
  | append_singleton entries entry ih =>
    have step : keyedHandlers [] (entries ++ [entry]) = NatMap.insert (entry.1 % 65536) entry.2 (keyedHandlers [] entries) := by
      simp [keyedHandlers]
    rw [step,NatMap.get?_insert,ih,List.reverse_concat,List.find?_cons]
    by_cases here : key = entry.1 % 65536
    · simp [here]
    · simp [here,Ne.symm here]

theorem get?_keyed {key : Nat} {h : CatchHandler} : (keyedHandlers [] entries).get? key = some h ↔ ∃ place, LastAt entries key place h := by
  simp only [get?_keyed_eq,lastAt_iff,Option.map_eq_some_iff,Prod.exists,exists_eq_right]

-- Not given up for what the container holds.
def Unstored (x : Except Fault α) : Prop := Faults (fun cause => ¬cause.Stored) x

namespace Reader

variable {α β : Type} {r : Reader α} {f : α → Reader β}

theorem bind_unstored (inside : r.InContainer) (told : Unstored ((r >>= f) bytes start)) :
    ∃ a middle, r bytes start = .ok (a,middle) ∧ Unstored (f a bytes middle) := by
  cases read : r bytes start with
  | ok result => exact ⟨result.1,result.2,rfl,by rwa [bind_read read] at told⟩
  | error fault => exact absurd (inside bytes start fault read) (told fault (bind_error.mpr (.inl read)))

theorem guard_unstored {p : Prop} [Decidable p] {cause : Malformed} {f : Unit → Reader β}
    (told : Unstored
      ((if p then (liftM (reject cause : Except Fault Unit) : Reader Unit) >>= f else f ()) bytes start)) :
    ¬p ∧ Unstored (f () bytes start) := by
  by_cases holds : p
  · rw [if_pos holds] at told
    exact absurd ⟨cause,rfl⟩ (told _ rfl)
  · rw [if_neg holds] at told
    exact ⟨holds,told⟩

end Reader

open Reader (bind_read bind_unstored guard_unstored times_ok valueAt_ok u2_ok u4_ok offset_bind size_bind u2_inContainer u4_inContainer
  uleb128_inContainer times_inContainer exactly_inContainer pure_inContainer)

theorem readTryItem_ok {t : TryItem} : TryItem.read bytes start = .ok (t,stop) ↔ t.StandsAt bytes start ∧ start + 8 = stop := by
  unfold TryItem.read
  simp only [reader_bind_ok,reader_pure_ok,u4_ok,u2_ok]
  constructor
  · intro done
    obtain ⟨_,_,⟨-,first,rfl⟩,_,_,⟨-,second,rfl⟩,_,_,⟨inside,third,rfl⟩,rfl,rfl⟩ := done
    exact ⟨⟨inside,first,second,third⟩,rfl⟩
  · intro stands
    obtain ⟨⟨inside,first,second,third⟩,rfl⟩ := stands
    exact ⟨_,_,⟨by omega,first,rfl⟩,_,_,⟨by omega,second,rfl⟩,_,_,⟨inside,third,rfl⟩,rfl,rfl⟩

theorem readTries_times {tries : List TryItem} {count : Nat} : Reader.times count TryItem.read bytes start = .ok (tries,stop) ↔
    tries.length = count ∧ (∀ (j : Nat) t, tries[j]? = some t → t.StandsAt bytes (start + j * 8)) ∧ start + count * 8 = stop := by
  rw [times_ok (r := TryItem.read) fun _ _ _ _ done => (readTryItem_ok.mp done).2.symm]
  simp [valueAt_ok,readTryItem_ok]

theorem Reader.exactly_times {r : Reader α} {count : Nat} {items : { items : List α // items.length = count }} :
    Reader.exactly r count bytes start = .ok (items,stop) ↔ Reader.times count r bytes start = .ok (items.val,stop) := by
  have anywhere : ∀ i, Reader.exactly r count bytes start = .ok (items,stop) ↔
      Reader.timesFrom (fun _ => r) i count bytes start = .ok (items.val,stop) := by
    induction count generalizing start with
    | zero =>
      intro i
      obtain ⟨items,none⟩ := items
      cases List.length_eq_zero_iff.mp none
      exact ⟨fun read => by cases read; rfl,fun read => by cases read; rfl⟩
    | succ count ih =>
      intro i
      simp only [Reader.exactly,Reader.timesFrom,reader_bind_ok,reader_pure_ok]
      constructor
      · rintro ⟨first,middle,here,rest,_,there,rfl,rfl⟩
        exact ⟨first,middle,here,rest.val,_,(ih (i + 1)).mp there,rfl,rfl⟩
      · rintro ⟨first,middle,here,rest,_,there,same,rfl⟩
        obtain ⟨items,length⟩ := items
        cases same
        exact ⟨first,middle,here,⟨rest,Nat.succ.inj length⟩,_,(ih (i + 1)).mpr there,rfl,rfl⟩
  exact anywhere 0

theorem readUnits_exactly {count : Nat} {units : { units : List UInt16 // units.length = count }} :
    Reader.exactly Reader.u2 count bytes start = .ok (units,stop) ↔
    (∀ (i : Nat) unit, units.val[i]? = some unit → start + i * 2 + 2 ≤ bytes.size ∧ unit.toNat = wordAt bytes (start + i * 2) 2) ∧
      start + count * 2 = stop := by
  rw [Reader.exactly_times,times_ok (r := Reader.u2) fun _ _ _ _ done => (u2_ok.mp done).2.2.symm]
  simp [valueAt_ok,u2_ok,units.property]

def readRanges (codeStart units tries : Nat) : Reader (List TryItem × NatMap CatchHandler) := do
  let tries ← Reader.times tries TryItem.read
  let listStart ← Reader.offset
  let count ← Reader.uleb128
  let handlers ← CodeItem.readHandlers codeStart listStart 0 count.toNat []
  CodeItem.checkTries codeStart units handlers tries
  return (tries,handlers)

theorem readTries_eq (codeStart units tries : Nat) : CodeItem.readTries codeStart units tries =
    if tries = 0 then pure ([],[])
    else if units % 2 = 1 then Reader.u2 >>= fun _ => readRanges codeStart units tries
    else readRanges codeStart units tries := rfl

variable {codeStart units : Nat} {tries : List TryItem}

theorem readRanges_read (ranges : ∀ (j : Nat) t, tries[j]? = some t → t.StandsAt bytes (start + j * 8))
    (listed : HandlersListed bytes (start + tries.length * 8) entries past) :
    readRanges codeStart units tries.length bytes start =
      CodeItem.checkTries codeStart units (keyedHandlers [] entries) tries >>= fun _ =>
        .ok ((tries,keyedHandlers [] entries),start + tries.length * 8 + past) := by
  obtain ⟨count,first,counted,long,stand⟩ := listed
  have handlers : CodeItem.readHandlers codeStart (start + tries.length * 8) 0 count.toNat [] bytes (start + tries.length * 8 + first) =
      .ok (keyedHandlers [] entries,start + tries.length * 8 + past) := readHandlers_ok.mpr ⟨entries,past,stand,long,rfl,rfl⟩
  rw [readRanges,bind_read (readTries_times.mpr ⟨rfl,ranges,rfl⟩),offset_bind,bind_read counted,bind_read handlers]
  cases CodeItem.checkTries codeStart units (keyedHandlers [] entries) tries <;> rfl

theorem readRanges_unstored {count : Nat} (told : Unstored (readRanges codeStart units count bytes start)) :
    ∃ tries entries past, List.length tries = count ∧ (∀ (j : Nat) t, tries[j]? = some t → TryItem.StandsAt bytes (start + j * 8) t) ∧
      HandlersListed bytes (start + tries.length * 8) entries past := by
  obtain ⟨tries,middle,read,told⟩ := bind_unstored (times_inContainer readTryItem_inContainer count) told
  obtain ⟨rfl,ranges,rfl⟩ := readTries_times.mp read
  rw [offset_bind] at told
  obtain ⟨listed,middle,counted,told⟩ := bind_unstored uleb128_inContainer told
  obtain ⟨first,rfl⟩ : ∃ first, middle = start + tries.length * 8 + first := ⟨middle - (start + tries.length * 8),by
    have further := (Reader.uleb128_local.reaches counted).1
    omega⟩
  obtain ⟨handlers,last,read,-⟩ := bind_unstored (readHandlers_inContainer _ _ _ _ _) told
  obtain ⟨entries,past,stand,long,-,-⟩ := readHandlers_ok.mp read
  exact ⟨tries,entries,past,rfl,ranges,listed,first,counted,long,stand⟩

theorem readTries_padded {count : Nat} (some_try : count ≠ 0) (room : units % 2 = 1 → start + 16 + units * 2 + 2 ≤ bytes.size) :
    CodeItem.readTries codeStart units count bytes (start + 16 + units * 2) =
      readRanges codeStart units count bytes (rangesPlace start units) := by
  rw [readTries_eq,if_neg some_try,rangesPlace]
  by_cases odd : units % 2 = 1
  · obtain ⟨padding,read,-⟩ := Reader.u2_there (room odd)
    have place : start + 16 + units * 2 + 2 = start + 16 + (units + units % 2) * 2 := by omega
    rw [if_pos odd,bind_read read,place]
  · have place : start + 16 + units * 2 = start + 16 + (units + units % 2) * 2 := by omega
    rw [if_neg odd,place]

theorem RangesStand.read (stands : RangesStand bytes start units tries entries stop) (codeStart : Nat) :
    CodeItem.readTries codeStart units tries.length bytes (start + 16 + units * 2) =
      CodeItem.checkTries codeStart units (keyedHandlers [] entries) tries >>= fun _ => .ok ((tries,keyedHandlers [] entries),stop) := by
  obtain ⟨ranges,listed⟩ := stands
  by_cases none : tries = []
  · subst none
    rw [if_pos rfl] at listed
    obtain ⟨rfl,rfl⟩ := listed
    rfl
  · rw [if_neg none] at listed
    obtain ⟨past,listed,rfl⟩ := listed
    have some_try : 0 < tries.length := List.length_pos_of_ne_nil none
    have room := (ranges 0 tries[0] (List.getElem?_eq_getElem some_try)).inside
    unfold rangesPlace at room
    rw [readTries_padded (Nat.ne_of_gt some_try) (by omega),readRanges_read ranges listed]
    rfl

theorem readTries_unstored {count : Nat}
    (told : Unstored (CodeItem.readTries codeStart units count bytes (start + 16 + units * 2))) :
    ∃ tries entries stop, List.length tries = count ∧ RangesStand bytes start units tries entries stop := by
  by_cases none : count = 0
  · exact ⟨[],[],_,none.symm,by simp,rfl,rfl⟩
  · have room : units % 2 = 1 → start + 16 + units * 2 + 2 ≤ bytes.size := by
      intro odd
      rw [readTries_eq,if_neg none,if_pos odd] at told
      obtain ⟨padding,middle,read,-⟩ := bind_unstored u2_inContainer told
      exact (u2_ok.mp read).1
    rw [readTries_padded none room] at told
    obtain ⟨tries,entries,past,rfl,ranges,listed⟩ := readRanges_unstored told
    have some_try : tries ≠ [] := fun empty => none (List.length_eq_zero_iff.mpr empty)
    exact ⟨tries,entries,_,rfl,ranges,by rw [if_neg some_try]; exact ⟨past,listed,rfl⟩⟩

theorem CodeItem.Stands.read {code : CodeItem} (stands : code.Stands bytes start entries stop) :
    CodeItem.read bytes start =
      CodeItem.checkTries start code.units.size code.handlers code.tries >>= fun _ => .ok (code,stop) := by
  have tried : (UInt16.ofNat code.tries.length).toNat = code.tries.length := by
    rw [stands.tries]
    exact UInt16.toNat_ofNat_of_lt (wordAt_lt bytes _ 2)
  obtain ⟨count,sized⟩ : ∃ count : UInt32, count.toNat = code.units.size := ⟨_,UInt32.toNat_ofNat_of_lt code.counted⟩
  have inside := stands.inside
  have units : Reader.exactly Reader.u2 count.toNat bytes (start + 16) =
      .ok (⟨code.units.toList,sized.symm⟩,start + 16 + count.toNat * 2) := by
    refine readUnits_exactly.mpr ⟨?_,rfl⟩
    intro i unit found
    have found : code.units[i]? = some unit := (Array.getElem?_toList).symm.trans found
    have below := (Array.getElem?_eq_some_iff.mp found).1
    exact ⟨by omega,stands.units i unit found⟩
  have ranges := stands.ranges.read start
  unfold CodeItem.read
  rw [offset_bind,bind_read (u2_ok.mpr ⟨by omega,stands.registers,rfl⟩),bind_read (u2_ok.mpr ⟨by omega,stands.ins,rfl⟩),
    bind_read (u2_ok.mpr ⟨by omega,stands.outs,rfl⟩),bind_read (u2_ok.mpr ⟨by omega,tried.trans stands.tries,rfl⟩),
    bind_read (u4_ok.mpr ⟨by omega,stands.debugInfo,rfl⟩)]
  dsimp only
  rw [if_neg (Nat.not_lt.mpr stands.fits),bind_read (u4_ok.mpr ⟨by omega,sized.trans stands.size,rfl⟩),offset_bind,size_bind]
  have here : start + 2 + 2 + 2 + 2 + 4 + 4 = start + 16 := rfl
  rw [here,tried,if_neg (by omega),bind_read units]
  rw [← stands.handlers,← sized] at ranges
  cases checked : CodeItem.checkTries start code.units.size code.handlers code.tries with
  | error fault =>
    rw [← sized] at checked
    rw [checked] at ranges
    exact Reader.bind_error.mpr (.inl ranges)
  | ok passed =>
    rw [← sized] at checked
    rw [checked] at ranges
    rw [bind_read ranges]
    rfl

theorem CodeItem.stands_of_unstored (told : Unstored (CodeItem.read bytes start)) :
    ∃ code entries stop, CodeItem.Stands bytes start code entries stop := by
  unfold CodeItem.read at told
  rw [offset_bind] at told
  obtain ⟨registers,_,read,told⟩ := bind_unstored u2_inContainer told
  obtain ⟨-,first,rfl⟩ := u2_ok.mp read
  obtain ⟨ins,_,read,told⟩ := bind_unstored u2_inContainer told
  obtain ⟨-,second,rfl⟩ := u2_ok.mp read
  obtain ⟨outs,_,read,told⟩ := bind_unstored u2_inContainer told
  obtain ⟨-,third,rfl⟩ := u2_ok.mp read
  obtain ⟨tried,_,read,told⟩ := bind_unstored u2_inContainer told
  obtain ⟨-,fourth,rfl⟩ := u2_ok.mp read
  obtain ⟨debugInfo,_,read,told⟩ := bind_unstored u4_inContainer told
  obtain ⟨-,fifth,rfl⟩ := u4_ok.mp read
  obtain ⟨fits,told⟩ := guard_unstored told
  obtain ⟨sized,_,read,told⟩ := bind_unstored u4_inContainer told
  obtain ⟨-,sixth,rfl⟩ := u4_ok.mp read
  rw [offset_bind,size_bind] at told
  obtain ⟨inside,told⟩ := guard_unstored told
  obtain ⟨⟨units,length⟩,_,read,told⟩ := bind_unstored (exactly_inContainer u2_inContainer _) told
  obtain ⟨each,rfl⟩ := readUnits_exactly.mp read
  have tables : Unstored
      (CodeItem.readTries start sized.toNat tried.toNat bytes (start + 16 + sized.toNat * 2)) :=
    fun fault failed => told fault (Reader.bind_error.mpr (.inl failed))
  obtain ⟨tries,entries,stop,few,ranges⟩ := readTries_unstored tables
  rw [← length] at ranges
  have counted : units.toArray.size < 2 ^ 32 := Nat.lt_of_le_of_lt (Nat.le_of_eq length) sized.toNat_lt
  refine ⟨⟨registers,ins,outs,debugInfo,units.toArray,tries,keyedHandlers [] entries,counted⟩,entries,stop,?_⟩
  exact {
    registers := first
    ins := second
    outs := third
    tries := few.trans fourth
    debugInfo := fifth
    size := length.trans sixth
    fits := Nat.not_lt.mp fits
    inside := by
      simp only [List.size_toArray,length]
      omega
    units := fun i unit found => (each i unit (by simpa using found)).2
    ranges := ranges
    handlers := rfl }

-- Ranges are looked at in their order, and each is asked for its handler, for its end and for the end of the code.

theorem checkTries_cons (codeStart units : Nat) (handlers : NatMap CatchHandler) (t : TryItem) (rest : List TryItem) :
    CodeItem.checkTries codeStart units handlers (t :: rest) =
      if handlers.contains t.handler.toNat = false then reject (.missingHandler t.start.toNat t.handler.toNat codeStart)
      else if 2 ^ 32 ≤ t.start.toNat + t.count.toNat then .error ⟨.overflow,[]⟩
      else if units < t.start.toNat + t.count.toNat then reject (.tryPastEnd t.start.toNat codeStart)
      else CodeItem.checkTries codeStart units handlers rest := by
  rw [CodeItem.checkTries]
  cases handlers.contains t.handler.toNat with
  | false => rfl
  | true =>
    unfold TryItem.stop
    by_cases small : t.start.toNat + t.count.toNat < 0x100000000
    · have fits : ¬2 ^ 32 ≤ t.start.toNat + t.count.toNat := by omega
      simp only [small,fits,if_true,if_false,Bool.not_true,Bool.false_eq_true,reduceCtorEq,ok_bind]
      split <;> rfl
    · have leaves : 2 ^ 32 ≤ t.start.toNat + t.count.toNat := by omega
      simp only [small,leaves,if_true,if_false,Bool.not_true,Bool.false_eq_true,reduceCtorEq]
      rfl

def TryItem.Kept (units : Nat) (handlers : NatMap CatchHandler) (t : TryItem) : Prop :=
  handlers.contains t.handler.toNat = true ∧ t.start.toNat + t.count.toNat ≤ units

theorem checkTries_ok {handlers : NatMap CatchHandler} (fits : units < 2 ^ 32) :
    CodeItem.checkTries codeStart units handlers tries = .ok () ↔ ∀ t ∈ tries, t.Kept units handlers := by
  induction tries with
  | nil => simp [CodeItem.checkTries]
  | cons t rest ih =>
    rw [checkTries_cons,List.forall_mem_cons,← ih,TryItem.Kept]
    split
    · simp_all
    · split
      · simp
        omega
      · split
        · simp
          omega
        · simp_all

theorem exists_first_cons {P Q : α → Prop} {first : α} {rest : List α} :
    (∃ before item after, first :: rest = before ++ item :: after ∧ (∀ a ∈ before, P a) ∧ Q item) ↔
      Q first ∨ P first ∧ ∃ before item after, rest = before ++ item :: after ∧ (∀ a ∈ before, P a) ∧ Q item := by
  constructor
  · intro found
    obtain ⟨before,item,after,split,passed,here⟩ := found
    cases before with
    | nil =>
      cases split
      exact .inl here
    | cons a before =>
      cases split
      obtain ⟨head,others⟩ := List.forall_mem_cons.mp passed
      exact .inr ⟨head,before,item,after,rfl,others,here⟩
  · intro found
    rcases found with here | ⟨head,before,item,after,rfl,passed,here⟩
    · exact ⟨[],first,rest,rfl,by simp,here⟩
    · exact ⟨first :: before,item,after,rfl,List.forall_mem_cons.mpr ⟨head,passed⟩,here⟩

theorem checkTries_overflow {handlers : NatMap CatchHandler} :
    (∃ fault, CodeItem.checkTries codeStart units handlers tries = .error fault ∧ fault.cause = .overflow) ↔
      ∃ before t after, tries = before ++ t :: after ∧ (∀ u ∈ before, TryItem.Kept units handlers u) ∧
        handlers.contains t.handler.toNat = true ∧ 2 ^ 32 ≤ t.start.toNat + t.count.toNat := by
  induction tries with
  | nil => simp [CodeItem.checkTries]
  | cons t rest ih =>
    rw [exists_first_cons (P := TryItem.Kept units handlers) (Q := fun t => handlers.contains t.handler.toNat = true ∧ 2 ^ 32 ≤ t.start.toNat + t.count.toNat),
      ← ih,checkTries_cons,TryItem.Kept]
    split
    · simp_all [reject]
    · split
      · simp_all
      · split
        · simp_all [reject]
        · simp_all

namespace CodeItem

variable {code : CodeItem}

theorem Stands.size_lt (stands : code.Stands bytes start entries stop) : code.units.size < 2 ^ 32 := stands.size ▸ wordAt_lt bytes _ 4

theorem read_ok : CodeItem.read bytes start = .ok (code,stop) ↔
    ∃ entries, code.Stands bytes start entries stop ∧ ∀ t ∈ code.tries, t.Kept code.units.size code.handlers := by
  constructor
  · intro read
    have unstored : Unstored (CodeItem.read bytes start) := by
      rw [read]
      exact faults_ok _ _
    obtain ⟨stored,entries,last,stands⟩ := stands_of_unstored unstored
    rw [stands.read,bind_eq_ok] at read
    obtain ⟨_,passed,same⟩ := read
    cases same
    exact ⟨entries,stands,(checkTries_ok stands.size_lt).mp passed⟩
  · intro stood
    obtain ⟨entries,stands,kept⟩ := stood
    rw [stands.read,(checkTries_ok stands.size_lt).mpr kept]
    rfl

theorem read_overflow : (∃ fault, CodeItem.read bytes start = .error fault ∧ fault.cause = .overflow) ↔
    ∃ code entries stop, CodeItem.Stands bytes start code entries stop ∧ ∃ before t after, code.tries = before ++ t :: after ∧
      (∀ u ∈ before, u.Kept code.units.size code.handlers) ∧ code.handlers.contains t.handler.toNat = true ∧ 2 ^ 32 ≤ t.start.toNat + t.count.toNat := by
  constructor
  · intro failed
    obtain ⟨fault,failed,overflow⟩ := failed
    have unstored : Unstored (CodeItem.read bytes start) := by
      intro other same stored
      obtain ⟨why,cause⟩ := stored
      rw [failed] at same
      cases same
      rw [overflow] at cause
      cases cause
    obtain ⟨code,entries,stop,stands⟩ := stands_of_unstored unstored
    rw [stands.read,bind_eq_error] at failed
    rcases failed with checked | ⟨-,-,fine⟩
    · exact ⟨code,entries,stop,stands,checkTries_overflow.mp ⟨fault,checked,overflow⟩⟩
    · cases fine
  · intro stood
    obtain ⟨code,entries,stop,stands,first⟩ := stood
    obtain ⟨fault,checked,overflow⟩ := checkTries_overflow.mpr first
    exact ⟨fault,by rw [stands.read,checked]; rfl,overflow⟩

end CodeItem

end Restack
