import Mathlib
import Restack.Container.CodeItem
import Restack.Proofs.NatMap
import Restack.Proofs.Bytes.Written

namespace Restack

-- A body in the layout of its file is read as what was laid out, whatever stands before and after it.

open Reader (Finds FindsAt pure_finds u2_finds u4_finds uleb128_finds sleb128_finds times_finds offset_findsAt size_findsAt
  lift_findsAt guard_findsAt)

def TryItem.encode (t : TryItem) : List UInt8 :=
  lowBytes 4 t.start.toNat ++ lowBytes 2 t.count.toNat ++ lowBytes 2 t.handler.toNat

def TypedHandler.encode (t : TypedHandler) : List UInt8 := Leb128.encode t.type ++ Leb128.encode t.address

namespace CatchHandler

def size (h : CatchHandler) : Int := if h.catchAll.isSome then -h.typed.length else h.typed.length

def encode (h : CatchHandler) : List UInt8 :=
  Leb128.encodeSigned (Int32.ofInt h.size) ++ h.typed.flatMap TypedHandler.encode ++ h.catchAll.toList.flatMap Leb128.encode

end CatchHandler

def handlerList (handlers : List CatchHandler) : List UInt8 :=
  Leb128.encode (UInt32.ofNat handlers.length) ++ handlers.flatMap CatchHandler.encode

def handlerOffset (handlers : List CatchHandler) (i : Nat) : Nat :=
  (Leb128.encode (UInt32.ofNat handlers.length) ++ (handlers.take i).flatMap CatchHandler.encode).length

-- What a file can say of a body. There is a list of handlers where there are ranges.
structure CodeLayout where
  registers : UInt16
  ins : UInt16
  outs : UInt16
  debugInfo : UInt32
  units : List UInt16
  tries : List TryItem
  handlers : List CatchHandler
  ins_le : ins.toNat ≤ registers.toNat
  units_lt : units.length < 2 ^ 32
  tries_lt : tries.length < 2 ^ 16
  handlers_lead : ∀ h ∈ handlers, h.typed ≠ [] ∨ h.catchAll.isSome
  handlers_lt : (handlerList handlers).length < 65536
  tries_inside : ∀ t ∈ tries, t.start.toNat + t.count.toNat ≤ units.length
  tries_handled : ∀ t ∈ tries, ∃ i < handlers.length, t.handler.toNat = handlerOffset handlers i

namespace CodeLayout

-- Ranges start at an even unit, so a unit of padding may stand before them.
def tryBytes (l : CodeLayout) (padding : UInt16) : List UInt8 :=
  if l.tries = [] then []
  else (if l.units.length % 2 = 1 then lowBytes 2 padding.toNat else []) ++ l.tries.flatMap TryItem.encode ++ handlerList l.handlers

def bytes (l : CodeLayout) (padding : UInt16) : List UInt8 :=
  lowBytes 2 l.registers.toNat ++ lowBytes 2 l.ins.toNat ++ lowBytes 2 l.outs.toNat ++ lowBytes 2 l.tries.length ++
    lowBytes 4 l.debugInfo.toNat ++ lowBytes 4 l.units.length ++ l.units.flatMap (fun unit => lowBytes 2 unit.toNat) ++
    l.tryBytes padding

def item (l : CodeLayout) : CodeItem where
  registers := l.registers
  ins := l.ins
  outs := l.outs
  debugInfo := l.debugInfo
  units := l.units.toArray
  tries := l.tries
  handlers := if l.tries = [] then [] else l.handlers.mapIdx fun i h => (handlerOffset l.handlers i,h)
  counted := l.units_lt

end CodeLayout

theorem readTryItem_finds (t : TryItem) : Finds TryItem.read t.encode t := by
  unfold TryItem.encode
  rw [List.append_assoc]
  exact (u4_finds _).bind ((u2_finds _).bind (u2_finds _).map)

theorem flatMap_finds {r : Reader α} {encode : α → List UInt8} {values : List α} (each : ∀ a ∈ values, Finds r (encode a) a) :
    Finds (Reader.times values.length r) (values.flatMap encode) values := by
  rw [List.flatMap_def]
  apply times_finds
  rw [List.forall₂_map_left_iff,List.forall₂_same]
  exact each

theorem encode_pos (n : UInt32) : 0 < (Leb128.encode n).length := Leb128.span_pos (Leb128.span_encode n)

-- Each part takes bytes, so there are no more of them than bytes.
theorem length_le_flatMap {encode : α → List UInt8} (pos : ∀ a, 0 < (encode a).length) (values : List α) :
    values.length ≤ (values.flatMap encode).length := by
  induction values with
  | nil => exact le_rfl
  | cons first rest ih =>
    have here := pos first
    rw [List.flatMap_cons,List.length_append,List.length_cons]
    omega

namespace CatchHandler

variable {h : CatchHandler}

theorem encode_length_pos (h : CatchHandler) : 0 < h.encode.length := by
  have here := Leb128.span_pos (Leb128.span_encodeSigned (Int32.ofInt h.size))
  simp only [encode,List.length_append]
  omega

theorem typed_le_encode (h : CatchHandler) : h.typed.length ≤ h.encode.length := by
  have pos : ∀ t : TypedHandler, 0 < t.encode.length := by
    intro t
    have here := encode_pos t.type
    simp only [TypedHandler.encode,List.length_append]
    omega
  have typed := length_le_flatMap pos h.typed
  simp only [encode,List.length_append]
  omega

theorem read_finds (lead : h.typed ≠ [] ∨ h.catchAll.isSome) (few : h.typed.length < 2 ^ 31) : Finds CatchHandler.read h.encode h := by
  have stored : (Int32.ofInt h.size).toInt = h.size := by
    apply Int32.toInt_ofInt_of_le
    all_goals
      unfold size
      split <;> simp <;> omega
  have number : (Int32.ofInt h.size).toInt.natAbs = h.typed.length := by
    rw [stored,size]
    split <;> omega
  have typed : Finds (Reader.times h.typed.length do
      let type ← Reader.uleb128
      let address ← Reader.uleb128
      return TypedHandler.mk type address) (h.typed.flatMap TypedHandler.encode) h.typed :=
    flatMap_finds fun t _ => (uleb128_finds t.type).bind (uleb128_finds t.address).map
  unfold encode
  rw [List.append_assoc]
  apply (sleb128_finds _).bind
  rw [number]
  apply typed.bind
  rw [stored]
  obtain ⟨listed,catchAll⟩ := h
  cases catchAll with
  | some address =>
    have sign : size ⟨listed,some address⟩ ≤ 0 := by simp [size]
    rw [if_pos sign]
    simpa using (uleb128_finds address).map (f := fun address => CatchHandler.mk listed (some address))
  | none =>
    have sign : ¬size ⟨listed,none⟩ ≤ 0 := by
      have typed : listed ≠ [] := by simpa using lead
      simpa [size] using typed
    rw [if_neg sign]
    exact pure_finds _

end CatchHandler

def placedFrom : Nat → List CatchHandler → NatMap CatchHandler
  | _, [] => []
  | place, h :: rest => (place,h) :: placedFrom (place + h.encode.length) rest

theorem placedFrom_eq (place : Nat) (handlers : List CatchHandler) :
    placedFrom place handlers = handlers.mapIdx fun i h => (place + ((handlers.take i).flatMap CatchHandler.encode).length,h) := by
  induction handlers generalizing place with
  | nil => rfl
  | cons first rest ih =>
    rw [placedFrom,ih,List.mapIdx_cons]
    simp [Nat.add_assoc]

theorem get?_placedFrom (place : Nat) {handlers : List CatchHandler} {i : Nat} {h : CatchHandler} (here : handlers[i]? = some h) :
    NatMap.get? (placedFrom place handlers) (place + ((handlers.take i).flatMap CatchHandler.encode).length) = some h := by
  induction handlers generalizing place i with
  | nil => simp at here
  | cons first rest ih =>
    rw [placedFrom,NatMap.get?_cons]
    cases i with
    | zero => simpa using here
    | succ i =>
      have pos := first.encode_length_pos
      have later := ih (place + first.encode.length) (by simpa using here)
      rw [List.take_succ_cons,List.flatMap_cons,List.length_append,if_neg (by omega),← Nat.add_assoc]
      exact later

theorem readHandlers_findsAt {handlers : List CatchHandler} (lead : ∀ h ∈ handlers, h.typed ≠ [] ∨ h.catchAll.isSome)
    (codeStart listStart i place : Nat) (found : NatMap CatchHandler)
    (short : place + (handlers.flatMap CatchHandler.encode).length < 65536) (below : ∀ pair ∈ found, pair.1 < place) :
    FindsAt (listStart + place) (CodeItem.readHandlers codeStart listStart i handlers.length found)
      (handlers.flatMap CatchHandler.encode) (found ++ placedFrom place handlers) := by
  induction handlers generalizing i place found with
  | nil =>
    rw [placedFrom,List.append_nil]
    exact (pure_finds found).at _
  | cons first rest ih =>
    obtain ⟨leads,others⟩ := List.forall_mem_cons.mp lead
    rw [List.flatMap_cons,List.length_append] at short
    have typed := first.typed_le_encode
    have pos := first.encode_length_pos
    have inserted : NatMap.insert ((listStart + place - listStart) % 65536) first found = found ++ [(place,first)] := by
      rw [Nat.add_sub_cancel_left,Nat.mod_eq_of_lt (by omega)]
      exact NatMap.insert_last below
    have under : ∀ pair ∈ found ++ [(place,first)], pair.1 < place + first.encode.length := by
      intro pair member
      rcases List.mem_append.mp member with old | new
      · exact Nat.lt_add_right _ (below pair old)
      · rw [List.mem_singleton.mp new]
        exact Nat.lt_add_of_pos_right pos
    have later := ih others (i + 1) (place + first.encode.length) (found ++ [(place,first)]) (by omega) under
    rw [List.flatMap_cons,List.length_cons]
    apply offset_findsAt
    apply (((first.read_finds leads (by omega)).at _).inContext _).bind
    rw [placedFrom,List.append_cons,inserted,Nat.add_assoc]
    exact later

theorem checkTries_passes (codeStart : Nat) {units : Nat} {handlers : NatMap CatchHandler} {tries : List TryItem} (fits : units < 2 ^ 32)
    (inside : ∀ t ∈ tries, t.start.toNat + t.count.toNat ≤ units)
    (handled : ∀ t ∈ tries, handlers.contains t.handler.toNat = true) :
    CodeItem.checkTries codeStart units handlers tries = .ok () := by
  induction tries with
  | nil => rfl
  | cons first rest ih =>
    obtain ⟨ends,others⟩ := List.forall_mem_cons.mp inside
    obtain ⟨here,later⟩ := List.forall_mem_cons.mp handled
    have stop : first.stop = .ok (first.start.toNat + first.count.toNat) := if_pos (by omega)
    rw [CodeItem.checkTries,here,stop]
    simp only [Bool.not_true,Bool.false_eq_true,if_false,ok_bind]
    rw [if_neg (by omega)]
    exact ih others later

namespace CodeLayout

variable (l : CodeLayout) (padding : UInt16)

theorem handlers_placed :
    (l.handlers.mapIdx fun i h => (handlerOffset l.handlers i,h)) =
      placedFrom (Leb128.encode (UInt32.ofNat l.handlers.length)).length l.handlers := by
  rw [placedFrom_eq]
  simp only [handlerOffset,List.length_append]

theorem get?_handlers {i : Nat} {h : CatchHandler} (here : l.handlers[i]? = some h) :
    NatMap.get? (l.handlers.mapIdx fun i h => (handlerOffset l.handlers i,h)) (handlerOffset l.handlers i) = some h := by
  rw [handlers_placed,handlerOffset,List.length_append]
  exact get?_placedFrom _ here

theorem handlers_count : (UInt32.ofNat l.handlers.length).toNat = l.handlers.length := by
  have few := length_le_flatMap CatchHandler.encode_length_pos l.handlers
  have short := l.handlers_lt
  rw [handlerList,List.length_append] at short
  rw [UInt32.toNat_ofNat']
  omega

theorem readTries_findsAt (codeStart start : Nat) :
    FindsAt start (CodeItem.readTries codeStart l.units.length l.tries.length) (l.tryBytes padding) (l.tries,l.item.handlers) := by
  unfold CodeItem.readTries tryBytes item
  by_cases none : l.tries = []
  · rw [none,if_pos rfl,if_pos rfl,if_pos List.length_nil]
    exact (pure_finds _).at start
  · rw [if_neg none,if_neg none,if_neg (by simpa using none)]
    have handled : ∀ t ∈ l.tries,
        NatMap.contains (l.handlers.mapIdx fun i h => (handlerOffset l.handlers i,h)) t.handler.toNat = true := by
      intro t member
      obtain ⟨i,below,named⟩ := l.tries_handled t member
      rw [NatMap.contains,named,l.get?_handlers (List.getElem?_eq_getElem below)]
      rfl
    have passed := checkTries_passes codeStart l.units_lt l.tries_inside handled
    have short := l.handlers_lt
    rw [handlerList,List.length_append] at short
    have listed : ∀ start, FindsAt start (do
        let tries ← Reader.times l.tries.length TryItem.read
        let listStart ← Reader.offset
        let count ← Reader.uleb128
        let handlers ← CodeItem.readHandlers codeStart listStart 0 count.toNat []
        CodeItem.checkTries codeStart l.units.length handlers tries
        return (tries,handlers)) (l.tries.flatMap TryItem.encode ++ handlerList l.handlers)
        (l.tries,l.handlers.mapIdx fun i h => (handlerOffset l.handlers i,h)) := by
      intro start
      apply ((flatMap_finds fun t _ => readTryItem_finds t).at start).bind
      apply offset_findsAt
      apply ((uleb128_finds _).at _).bind
      rw [l.handlers_count]
      have found := readHandlers_findsAt l.handlers_lead codeStart (start + (l.tries.flatMap TryItem.encode).length) 0 _ [] short
        (by simp)
      rw [List.nil_append,← handlers_placed] at found
      exact found.last (lift_findsAt passed ((pure_finds _).at _))
    rw [List.append_assoc]
    split
    · exact ((u2_finds padding).at start).bind (listed _)
    · exact listed start

theorem read_finds : Finds CodeItem.read (l.bytes padding) l.item := by
  have tries : (UInt16.ofNat l.tries.length).toNat = l.tries.length := by
    rw [UInt16.toNat_ofNat',Nat.mod_eq_of_lt l.tries_lt]
  obtain ⟨count,units⟩ : ∃ count : UInt32, count.toNat = l.units.length := ⟨_,UInt32.toNat_ofNat_of_lt l.units_lt⟩
  have length : (l.units.flatMap fun unit => lowBytes 2 unit.toNat).length = l.units.length * 2 := by
    simp [List.length_flatMap,lowBytes_length]
  rw [Reader.finds_iff]
  intro start
  unfold bytes
  rw [← tries,← units]
  simp only [List.append_assoc]
  apply offset_findsAt
  apply ((u2_finds l.registers).at _).bind
  apply ((u2_finds l.ins).at _).bind
  apply ((u2_finds l.outs).at _).bind
  apply ((u2_finds _).at _).bind
  apply ((u4_finds l.debugInfo).at _).bind
  apply guard_findsAt (Nat.not_lt.mpr l.ins_le)
  apply ((u4_finds _).at _).bind
  apply offset_findsAt
  apply size_findsAt
  intro available room
  rw [List.length_append,length] at room
  rw [tries] at room ⊢
  apply guard_findsAt (by omega)
  have each : List.Forall₂ (Finds Reader.u2) (l.units.map fun unit => lowBytes 2 unit.toNat) l.units :=
    List.forall₂_map_left_iff.mpr (List.forall₂_same.mpr fun unit _ => u2_finds unit)
  rw [List.flatMap_def]
  apply ((Reader.exactly_finds each units.symm).at _).bind
  have tables := l.readTries_findsAt padding
  rw [← units] at tables
  exact (tables _ _).last ((pure_finds _).at _)

theorem handlerFor_placed {t : TryItem} {i : Nat} {h : CatchHandler} (member : t ∈ l.tries) (here : l.handlers[i]? = some h)
    (named : t.handler.toNat = handlerOffset l.handlers i) : l.item.handlerFor t = some h := by
  have some_try : l.tries ≠ [] := List.ne_nil_of_mem member
  rw [CodeItem.handlerFor,item,if_neg some_try,named]
  exact l.get?_handlers here

end CodeLayout

theorem code_items_read (l : CodeLayout) (padding : UInt16) :
    Finds CodeItem.read (l.bytes padding) l.item ∧
    ∀ t ∈ l.tries, ∀ i h, l.handlers[i]? = some h → t.handler.toNat = handlerOffset l.handlers i → l.item.handlerFor t = some h :=
  ⟨l.read_finds padding,fun _ member _ _ => l.handlerFor_placed member⟩

-- Three units and two ranges. The first handler catches as many types as take two bytes to count, and the second anything.
def paddedTries : CodeLayout where
  registers := 2
  ins := 1
  outs := 0
  debugInfo := 0
  units := [0x0012,0x0000,0x000e]
  tries := [⟨0,2,195⟩,⟨2,1,1⟩]
  handlers := [⟨List.replicate 64 ⟨5,300⟩,none⟩,⟨[],some 2⟩]
  ins_le := by decide
  units_lt := by decide
  tries_lt := by decide
  handlers_lead := by decide
  handlers_lt := by decide +kernel
  tries_inside := by decide
  tries_handled := by decide +kernel

theorem code_items_read_paddedTries :
    CodeItem.read ([0xff] ++ paddedTries.bytes 7 ++ [0x80]).toArray 1 = .ok (paddedTries.item,238) ∧
    paddedTries.item.handlerFor ⟨0,2,195⟩ = some ⟨[],some 2⟩ := by
  obtain ⟨found,handled⟩ := code_items_read paddedTries 7
  have length : (paddedTries.bytes 7).length = 237 := by decide +kernel
  have read := found [0xff] [0x80]
  rw [length] at read
  exact ⟨read,handled ⟨0,2,195⟩ List.mem_cons_self 1 _ rfl (by decide +kernel)⟩

end Restack
