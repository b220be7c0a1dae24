import Mathlib
import Restack.Proofs.CodeItems
import Restack.Proofs.Container.Bodies

namespace Restack

-- The handler of a range is the one at its offset, unless the list goes on so far that the sixteen bits of the offset come
-- up again. Then it is the last one whose place has these bits.

variable {bytes : Bytes} {start stop list place past : Nat} {entries : List (Nat × CatchHandler)} {h : CatchHandler}

theorem HandlersStand.read (stand : HandlersStand bytes list place entries past) {entry : Nat × CatchHandler} (member : entry ∈ entries) :
    CatchHandler.read.valueAt bytes (list + entry.1) = .ok entry.2 := by
  induction stand with
  | done => cases member
  | next told _ ih =>
    rcases List.mem_cons.mp member with rfl | later
    · exact Reader.valueAt_ok.mpr ⟨_,told⟩
    · exact ih later

-- Each handler takes bytes, so places go up.
theorem HandlersStand.ascends (stand : HandlersStand bytes list place entries past) :
    (∀ entry ∈ entries, place ≤ entry.1) ∧ entries.Pairwise fun one two => one.1 < two.1 := by
  induction stand with
  | done => simp
  | next told _ ih =>
    have further := (readHandler_local.reaches told).1
    refine ⟨List.forall_mem_cons.mpr ⟨le_rfl,?_⟩,List.pairwise_cons.mpr ⟨?_,ih.2⟩⟩
    · intro entry member
      have := ih.1 entry member
      omega
    · intro entry member
      have := ih.1 entry member
      dsimp only
      omega

theorem LastAt.mem {key : Nat} (last : LastAt entries key place h) : (place,h) ∈ entries := by
  obtain ⟨before,after,rfl,-,-⟩ := last
  simp

-- It stands at the offset itself just if no place with these bits is past the first 64 KiB.
theorem LastAt.place_eq_iff {offset : UInt16} (ascends : entries.Pairwise fun one two => one.1 < two.1)
    (last : LastAt entries offset.toNat place h) :
    place = offset.toNat ↔ ∀ entry ∈ entries, entry.1 % 65536 = offset.toNat → entry.1 < 65536 := by
  have small := offset.toNat_lt
  constructor
  · rintro rfl entry member bits
    obtain ⟨before,after,rfl,-,others⟩ := last
    rcases List.mem_append.mp member with old | later
    · have below := (List.pairwise_append.mp ascends).2.2 entry old _ List.mem_cons_self
      exact below.trans small
    · rcases List.mem_cons.mp later with rfl | later
      · exact small
      · exact absurd bits (others entry later)
  · intro near
    have below := near _ last.mem
    obtain ⟨before,after,rfl,bits,others⟩ := last
    have := below bits
    dsimp only at this
    omega

-- A range has the handler that stands so many bytes into the list as its offset says.
def CodeItem.FollowsOffset (bytes : Bytes) (start : Nat) (code : CodeItem) (t : TryItem) : Prop :=
  ∃ h, code.handlerFor t = some h ∧
    CatchHandler.read.valueAt bytes (listPlace start code.units.size code.tries.length + t.handler.toNat) = .ok h

theorem handlers_by_low_bits {code : CodeItem} (read : CodeItem.read bytes start = .ok (code,stop)) (ranged : code.tries ≠ []) :
    ∃ entries past, HandlersListed bytes (listPlace start code.units.size code.tries.length) entries past ∧
      stop = listPlace start code.units.size code.tries.length + past ∧
      ∀ t ∈ code.tries, ∃ place h, LastAt entries t.handler.toNat place h ∧ code.handlerFor t = some h ∧
        (code.FollowsOffset bytes start t ↔
          CatchHandler.read.valueAt bytes (listPlace start code.units.size code.tries.length + t.handler.toNat) =
            CatchHandler.read.valueAt bytes (listPlace start code.units.size code.tries.length + place)) ∧
        (place = t.handler.toNat ↔ ∀ entry ∈ entries, entry.1 % 65536 = t.handler.toNat → entry.1 < 65536) := by
  obtain ⟨entries,stands,kept⟩ := CodeItem.read_ok.mp read
  have listed := stands.ranges.listed
  rw [if_neg ranged] at listed
  obtain ⟨past,listed,rfl⟩ := listed
  refine ⟨entries,past,listed,rfl,?_⟩
  obtain ⟨count,first,-,-,stand⟩ := listed
  intro t member
  obtain ⟨h,found⟩ := Option.isSome_iff_exists.mp (kept t member).1
  have last := found
  rw [stands.handlers] at last
  obtain ⟨place,last⟩ := get?_keyed.mp last
  have here := stand.read last.mem
  refine ⟨place,h,last,found,?_,last.place_eq_iff stand.ascends.2⟩
  rw [here]
  constructor
  · intro follows
    obtain ⟨other,given,told⟩ := follows
    rw [told]
    exact congrArg Except.ok (Option.some.inj (given.symm.trans found))
  · intro same
    exact ⟨h,found,same⟩

theorem written_stand {handlers : List CatchHandler} (each : ∀ h ∈ handlers, Reader.Finds CatchHandler.read h.encode h)
    (before after : List UInt8) (here : before.length = list + place) :
    HandlersStand (before ++ (handlers.flatMap CatchHandler.encode ++ after)).toArray list place (placedFrom place handlers)
      (place + (handlers.flatMap CatchHandler.encode).length) := by
  induction handlers generalizing before place with
  | nil => exact .done place
  | cons first rest ih =>
    obtain ⟨head,others⟩ := List.forall_mem_cons.mp each
    have told := head before (rest.flatMap CatchHandler.encode ++ after)
    have there : (before ++ first.encode).length = list + (place + first.encode.length) := by rw [List.length_append,here,Nat.add_assoc]
    have later := ih others (before ++ first.encode) there
    rw [here,Nat.add_assoc] at told
    rw [List.append_assoc] at told later
    rw [List.flatMap_cons,List.length_append,← Nat.add_assoc,List.append_assoc]
    exact .next told later

-- A handler for so many types, which takes two bytes for each of them.
def filler (n : Nat) : CatchHandler := ⟨List.replicate n ⟨0,0⟩,some 0⟩

theorem filler_length (n : Nat) : (filler n).encode.length = (Leb128.encodeSigned (Int32.ofInt (-n))).length + n * 2 + 1 := by
  have pair : (TypedHandler.encode ⟨0,0⟩).length = 2 := by decide +kernel
  have address : (Leb128.encode 0).length = 1 := by decide +kernel
  simp [filler,CatchHandler.encode,CatchHandler.size,List.length_flatMap,pair,address,Nat.add_assoc]

theorem filler_finds {n : Nat} (few : n < 2 ^ 31) : Reader.Finds CatchHandler.read (filler n).encode (filler n) :=
  CatchHandler.read_finds (.inr rfl) (by rwa [filler,List.length_replicate])

-- Two units and a range of the first one, for which the handler one byte into a list is meant.
def rangedFront : List UInt8 := [1,0,0,0,0,0,1,0,0,0,0,0,2,0,0,0,0x0e,0,0x0e,0,0,0,0,0,1,0,1,0]

def rangedItem (entries : List (Nat × CatchHandler)) : CodeItem where
  registers := 1
  ins := 0
  outs := 0
  debugInfo := 0
  units := #[0x0e,0x0e]
  tries := [⟨0,1,1⟩]
  handlers := keyedHandlers [] entries

theorem rangedItem_list (entries : List (Nat × CatchHandler)) :
    listPlace 0 (rangedItem entries).units.size (rangedItem entries).tries.length = 28 := by
  simp [listPlace,rangesPlace,rangedItem]

theorem rangedItem_stands {back : List UInt8} (listed : HandlersListed (rangedFront ++ back).toArray 28 entries past) :
    (rangedItem entries).Stands (rangedFront ++ back).toArray 0 entries (28 + past) := by
  have word : ∀ {place width n}, place + width ≤ 28 → wordAt rangedFront.toArray place width = n →
      n = wordAt (rangedFront ++ back).toArray place width := fun inside told => told.symm.trans (wordAt_front inside).symm
  have long : 28 ≤ (rangedFront ++ back).toArray.size := by
    rw [List.size_toArray,List.length_append]
    exact Nat.le_add_right 28 _
  exact {
    registers := word (by decide) rfl
    ins := word (by decide) rfl
    outs := word (by decide) rfl
    tries := word (by decide) rfl
    debugInfo := word (by decide) rfl
    size := word (by decide) rfl
    fits := Nat.zero_le _
    inside := (by decide : 0 + 16 + 2 * 2 ≤ 28).trans long
    units := by
      intro i unit found
      match i with
      | 0 =>
        cases found
        exact word (by decide) rfl
      | 1 =>
        cases found
        exact word (by decide) rfl
      | i + 2 => cases found
    ranges := {
      ranges := by
        intro j t found
        match j with
        | 0 =>
          cases found
          have place : rangesPlace 0 (rangedItem entries).units.size + 0 * 8 = 20 := by simp [rangesPlace,rangedItem]
          rw [place]
          exact ⟨long,word (by decide) rfl,word (by decide) rfl,word (by decide) rfl⟩
        | j + 1 => cases found
      listed := by
        have ranged : (rangedItem entries).tries ≠ [] := List.cons_ne_nil _ _
        rw [if_neg ranged,rangedItem_list]
        exact ⟨past,listed,rfl⟩ }
    handlers := rfl }

-- The second handler fills the list up to the place that has the same sixteen bits as that of the first.
def farHandlers : List CatchHandler := [⟨[],some 0⟩,filler 32765,⟨[],some 1⟩]

def farEntries : List (Nat × CatchHandler) := [(1,⟨[],some 0⟩),(3,filler 32765),(65537,⟨[],some 1⟩)]

def farBytes : Bytes := (rangedFront ++ handlerList farHandlers).toArray

theorem farFiller_length : (filler 32765).encode.length = 65534 := by
  have size : (Leb128.encodeSigned (Int32.ofInt (-(32765 : Nat)))).length = 3 := by decide +kernel
  rw [filler_length,size]

theorem firstHandler_length : (CatchHandler.encode ⟨[],some 0⟩).length = 2 := by decide +kernel

theorem farHandlers_placed : placedFrom 1 farHandlers = farEntries := by
  simp only [farHandlers,placedFrom,firstHandler_length,farFiller_length]
  rfl

theorem farHandlers_length : (farHandlers.flatMap CatchHandler.encode).length = 65538 := by
  have last : (CatchHandler.encode ⟨[],some 1⟩).length = 2 := by decide +kernel
  simp only [farHandlers,List.flatMap_cons,List.flatMap_nil,List.length_append,List.length_nil,firstHandler_length,last,farFiller_length]

theorem farHandlers_listed : HandlersListed farBytes 28 farEntries 65539 := by
  have readable : ∀ h ∈ farHandlers, Reader.Finds CatchHandler.read h.encode h := by
    have bare : ∀ address, Reader.Finds CatchHandler.read (CatchHandler.encode ⟨[],some address⟩) ⟨[],some address⟩ := fun _ =>
      CatchHandler.read_finds (.inr rfl) (Nat.two_pow_pos 31)
    exact List.forall_mem_cons.mpr ⟨bare 0,List.forall_mem_cons.mpr ⟨filler_finds (by decide),List.forall_mem_singleton.mpr (bare 1)⟩⟩
  have counted := Reader.uleb128_finds 3 rangedFront (farHandlers.flatMap CatchHandler.encode)
  have here : (rangedFront ++ Leb128.encode 3).length = 28 + 1 := by decide +kernel
  have stand := written_stand readable (rangedFront ++ Leb128.encode 3) [] here
  rw [farHandlers_placed,farHandlers_length,List.append_nil] at stand
  rw [List.append_assoc] at counted stand
  exact ⟨3,1,counted,rfl,stand⟩

theorem farEntries_last : (rangedItem farEntries).handlerFor ⟨0,1,1⟩ = some ⟨[],some 1⟩ :=
  get?_keyed.mpr ⟨65537,[(1,⟨[],some 0⟩),(3,filler 32765)],[],rfl,rfl,by simp⟩

theorem farBytes_read : CodeItem.read farBytes 0 = .ok (rangedItem farEntries,28 + 65539) := by
  have kept : ∀ t ∈ (rangedItem farEntries).tries, t.Kept (rangedItem farEntries).units.size (rangedItem farEntries).handlers :=
    List.forall_mem_singleton.mpr ⟨Option.isSome_iff_exists.mpr ⟨_,farEntries_last⟩,by decide⟩
  exact CodeItem.read_ok.mpr ⟨farEntries,rangedItem_stands farHandlers_listed,kept⟩

-- At the offset of the range stands the first handler, and the range has the last one.
theorem farBytes_strays : ∃ code stop, CodeItem.read farBytes 0 = .ok (code,stop) ∧ ∃ t ∈ code.tries, ¬code.FollowsOffset farBytes 0 t := by
  refine ⟨_,_,farBytes_read,⟨0,1,1⟩,List.mem_singleton_self _,?_⟩
  intro follows
  obtain ⟨h,given,told⟩ := follows
  rw [rangedItem_list] at told
  obtain ⟨count,first,-,-,stand⟩ := farHandlers_listed
  have first : ((1,⟨[],some 0⟩) : Nat × CatchHandler) ∈ farEntries := List.mem_cons_self
  rw [farEntries_last] at given
  cases given
  cases (stand.read first).symm.trans told

theorem handlers_by_low_bits_farBytes :
    (CodeItem.read farBytes 0 = .ok (rangedItem farEntries,28 + 65539) ∧ (rangedItem farEntries).tries ≠ []) ∧
    ∃ entries past, HandlersListed farBytes 28 entries past ∧ 28 + 65539 = 28 + past ∧ ∃ place h, LastAt entries 1 place h ∧
      (rangedItem farEntries).handlerFor ⟨0,1,1⟩ = some h ∧
      ((rangedItem farEntries).FollowsOffset farBytes 0 ⟨0,1,1⟩ ↔
        CatchHandler.read.valueAt farBytes (28 + 1) = CatchHandler.read.valueAt farBytes (28 + place)) ∧
      (place = 1 ↔ ∀ entry ∈ entries, entry.1 % 65536 = 1 → entry.1 < 65536) := by
  have ranged : (rangedItem farEntries).tries ≠ [] := List.cons_ne_nil _ _
  have given := handlers_by_low_bits farBytes_read ranged
  rw [rangedItem_list] at given
  obtain ⟨entries,past,listed,stop,each⟩ := given
  exact ⟨⟨farBytes_read,ranged⟩,entries,past,listed,stop,each ⟨0,1,1⟩ (List.mem_singleton_self _)⟩

end Restack
