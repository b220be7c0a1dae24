import Mathlib
import Restack.Proofs.Body.Resolve
import Restack.Proofs.Bytes.Written
import Restack.Proofs.DataBlocks
import Restack.Proofs.OperandLayouts
import Restack.Proofs.RegisterSlots
import Restack.Proofs.Switches

namespace Restack

open Lowering

-- Arrays that are filled from data inside code. Elements are stored as their bits, and come out as
-- constants of their type.

variable {c : Container} {item : CodeItem} {code : CodeUnits} {labels : LabelTable} {pc a : Nat} {e : Encoded} {pad : UInt8}

inductive Primitive where
  | bool | byte | short | char | int | long | float | double

namespace Primitive

variable {element : Primitive}

def type : Primitive → Descriptor
  | .bool => .bool
  | .byte => .byte
  | .short => .short
  | .char => .char
  | .int => .int
  | .long => .long
  | .float => .float
  | .double => .double

def bytes : Primitive → Nat
  | .bool | .byte => 1
  | .short | .char => 2
  | .int | .float => 4
  | .long | .double => 8

-- Arrays of truth values are accessed as arrays of bytes.
def arrayKind : Primitive → ArrayKind
  | .bool | .byte => .byte
  | .short => .short
  | .char => .char
  | .int => .int
  | .long => .long
  | .float => .float
  | .double => .double

abbrev Pattern (element : Primitive) : Type := BitVec (8 * element.bytes)

def constant : (element : Primitive) → element.Pattern → Constant
  | .bool, pattern | .byte, pattern | .short, pattern => .int (Int32.ofBitVec (pattern.signExtend 32))
  | .char, pattern => .int (Int32.ofBitVec (pattern.setWidth 32))
  | .int, pattern => .int (Int32.ofBitVec pattern)
  | .long, pattern => .long (Int64.ofBitVec pattern)
  | .float, pattern => .float (UInt32.ofBitVec pattern)
  | .double, pattern => .double (UInt64.ofBitVec pattern)

def stored (element : Primitive) (patterns : List element.Pattern) : List UInt8 :=
  patterns.flatMap fun pattern => lowBytes element.bytes pattern.toNat

def packed (pad : UInt8) : List UInt8 → List (BitVec 16)
  | [] => []
  | [low] => [pad.toBitVec ++ low.toBitVec]
  | low :: high :: rest => (high.toBitVec ++ low.toBitVec) :: packed pad rest

def block (element : Primitive) (pad : UInt8) (patterns : List element.Pattern) : List (BitVec 16) :=
  0x0300 :: BitVec.ofNat 16 element.bytes :: BitVec.ofNat 16 patterns.length :: BitVec.ofNat 16 (patterns.length / 65536) ::
    packed pad (element.stored patterns)

-- Stores into the array of a slot, one element after the other.
def stores (element : Primitive) (slot first : Nat) (patterns : List element.Pattern) : List Insn :=
  (patterns.zipIdx first).flatMap fun (pattern,i) =>
    [.load .reference slot,.const (.int (Int32.ofNat i)),.const (element.constant pattern),.arrayStore element.arrayKind]

theorem stored_length (element : Primitive) (patterns : List element.Pattern) :
    (element.stored patterns).length = element.bytes * patterns.length := by
  simp [stored,List.length_flatMap,lowBytes_length,Nat.mul_comm]

theorem packed_length (pad : UInt8) (bytes : List UInt8) : (packed pad bytes).length = (bytes.length + 1) / 2 := by
  induction bytes using packed.induct with
  | case1 => rfl
  | case2 low => simp [packed]
  | case3 low high rest ih =>
    simp only [packed,List.length_cons,ih]
    omega

theorem unitBytes_succ (code : CodeUnits) (a count : Nat) : Payload.unitBytes code a (count + 1) =
    UInt8.ofNat (code.unit a % 256) :: UInt8.ofNat (code.unit a / 256) :: Payload.unitBytes code (a + 1) count := by
  simp [Payload.unitBytes,List.range_succ_eq_map,List.flatMap_map,Nat.add_assoc,Nat.add_comm 1]

theorem unit_bytes {low high : UInt8} (stands : code.unit a = (high.toBitVec ++ low.toBitVec).toNat) :
    code.unit a % 256 = low.toNat ∧ code.unit a / 256 = high.toNat := by
  have small := low.toNat_lt
  have word : code.unit a = high.toNat * 256 + low.toNat := stands.trans (append_toNat ..)
  omega

theorem unitBytes_packed {bytes : List UInt8} (stand : code.Stand a (packed pad bytes)) :
    (Payload.unitBytes code a ((bytes.length + 1) / 2)).take bytes.length = bytes := by
  induction bytes using packed.induct generalizing a with
  | case1 => rfl
  | case2 low => simp [unitBytes_succ,(unit_bytes stand.1).1]
  | case3 low high rest ih =>
    obtain ⟨lowest,highest⟩ := unit_bytes stand.1
    have half : ((low :: high :: rest).length + 1) / 2 = (rest.length + 1) / 2 + 1 := by
      simp only [List.length_cons]
      omega
    rw [half,unitBytes_succ,lowest,highest]
    simp [ih stand.2]

theorem chunks_stored (patterns : List element.Pattern) :
    ArrayData.chunks element.bytes patterns.length (element.stored patterns) =
      patterns.map fun pattern => lowBytes element.bytes pattern.toNat := by
  induction patterns with
  | nil => rfl
  | cons pattern patterns ih =>
    have here : (lowBytes element.bytes pattern.toNat).length = element.bytes := lowBytes_length ..
    have all : element.stored (pattern :: patterns) = lowBytes element.bytes pattern.toNat ++ element.stored patterns := rfl
    rw [all,List.length_cons,ArrayData.chunks,if_neg (by rw [List.length_append,here]; omega),List.take_left' here,
      List.drop_left' here,ih]
    rfl

theorem elements_stored (patterns : List element.Pattern) :
    (ArrayData.mk element.bytes (element.stored patterns)).elements = patterns.map BitVec.toNat := by
  have positive : 0 < element.bytes := by cases element <;> decide
  have width : max element.bytes 1 = element.bytes := by omega
  have narrow : 256 ^ element.bytes ≤ 0x10000000000000000 := by cases element <;> decide
  simp only [ArrayData.elements,width,stored_length,Nat.mul_div_cancel_left _ positive,chunks_stored,List.map_map]
  refine List.map_congr_left fun pattern _ => ?_
  have small : pattern.toNat < 256 ^ element.bytes := by
    have bound := pattern.isLt
    rwa [Nat.pow_mul] at bound
  simp only [Function.comp_apply,littleEndian_lowBytes small]
  exact Nat.mod_eq_of_lt (Nat.lt_of_lt_of_le small narrow)

theorem twosComplement_toNat {width : Nat} (positive : 0 < width) (x : BitVec width) : twosComplement width x.toNat = x.toInt := by
  apply twosComplement_eq positive
  · exact BitVec.le_two_mul_toInt
  · exact BitVec.two_mul_toInt_lt
  · rw [BitVec.toInt_eq_toNat_cond]
    split <;> simp

theorem ofInt_twosComplement {width : Nat} (positive : 0 < width) (x : BitVec width) :
    BitVec.ofInt width (twosComplement width x.toNat) = x := by
  rw [twosComplement_toNat positive,BitVec.ofInt_toInt]

theorem ofNat_toNat_same {width : Nat} (x : BitVec width) : BitVec.ofNat width x.toNat = x :=
  (BitVec.ofNat_toNat width x).trans (BitVec.setWidth_eq x)

theorem dataConstant_pattern (element : Primitive) (pattern : element.Pattern) :
    dataConstant element.type pattern.toNat = element.constant pattern := by
  cases element with
  | bool | byte | short =>
    exact congrArg (fun x => Constant.int (Int32.ofInt x)) (twosComplement_toNat (by decide) pattern)
  | char =>
    have small : pattern.toNat < 0x10000 := pattern.isLt
    have same : BitVec.ofInt 32 (pattern.toNat % 0x10000 : Nat) = pattern.setWidth 32 := by
      rw [Nat.mod_eq_of_lt small,BitVec.ofInt_natCast,BitVec.ofNat_toNat]
    exact congrArg (fun x => Constant.int (Int32.ofBitVec x)) same
  | int => exact congrArg (fun x => Constant.int (Int32.ofBitVec x)) (ofInt_twosComplement (by decide) pattern)
  | long => exact congrArg (fun x => Constant.long (Int64.ofBitVec x)) (ofInt_twosComplement (by decide) pattern)
  | float => exact congrArg (fun x => Constant.float (UInt32.ofBitVec x)) (ofNat_toNat_same pattern)
  | double => exact congrArg (fun x => Constant.double (UInt64.ofBitVec x)) (ofNat_toNat_same pattern)

theorem dataBytes_block {patterns : List element.Pattern} (few : patterns.length < 2 ^ 31)
    (stand : code.Stand a (element.block pad patterns)) :
    code.unit a = 0x0300 ∧ code.unit (a + 1) = element.bytes ∧ Payload.dataBytes code a = (element.stored patterns).length := by
  obtain ⟨announced,width,low,high,-⟩ := stand
  have narrow : element.bytes < 65536 := by cases element <;> decide
  rw [BitVec.toNat_ofNat] at width low high
  have bytes : code.unit (a + 1) = element.bytes := by omega
  have count : code.pair (a + 2) = patterns.length := by
    simp only [CodeUnits.pair,Nat.add_assoc,Nat.reduceAdd] at low high ⊢
    omega
  exact ⟨announced,bytes,by rw [Payload.dataBytes,bytes,count,stored_length]⟩

theorem block_length (element : Primitive) (pad : UInt8) (patterns : List element.Pattern) :
    (element.block pad patterns).length = 4 + ((element.stored patterns).length + 1) / 2 := by
  simp only [block,List.length_cons,packed_length]
  omega

end Primitive

def CodeUnits.arrayData (code : CodeUnits) (a : Nat) : ArrayData :=
  ⟨code.unit (a + 1),(Payload.unitBytes code (a + 4) ((Payload.dataBytes code a + 1) / 2)).take (Payload.dataBytes code a)⟩

theorem block_arrayData (announced : code.unit a = 0x0300) (head : a + 4 ≤ code.size) :
    Payload.block? code a = .ok (some (.arrayData,4 + (Payload.dataBytes code a + 1) / 2)) := by
  have room : code.require a 4 PayloadKind.arrayData.text = .ok () := if_neg (by omega)
  have kind : Payload.kindOf? (code.unit a) = some .arrayData := by
    rw [announced]
    rfl
  simp only [Payload.block?,kind,Payload.headUnits,room]
  rfl

theorem parse_arrayData (announced : code.unit a = 0x0300) (inside : a + (4 + (Payload.dataBytes code a + 1) / 2) ≤ code.size)
    (user : Nat) : Payload.parse code a user = .ok (.arrayData (code.arrayData a)) := by
  have room : code.require a (4 + (Payload.dataBytes code a + 1) / 2) "payload" = .ok () := if_neg (by omega)
  simp only [Payload.parse,block_arrayData announced (by omega),ok_bind,room,Nat.add_sub_cancel_left]
  rfl

theorem kindOf_arrayData {word : Nat} (known : Payload.kindOf? word = some .arrayData) : word = 0x0300 := by
  unfold Payload.kindOf? at known
  split_ifs at known with packed sparse data
  · cases known
  · cases known
  · exact data

theorem arrayData_block {element : Primitive} {patterns : List element.Pattern} (few : patterns.length < 2 ^ 31)
    (stand : code.Stand a (element.block pad patterns)) : code.arrayData a = ⟨element.bytes,element.stored patterns⟩ := by
  obtain ⟨-,width,length⟩ := Primitive.dataBytes_block few stand
  rw [CodeUnits.arrayData,width,length,Primitive.unitBytes_packed stand.2.2.2.2]

structure FillsFrom (c : Container) (item : CodeItem) (labels : LabelTable) (pc : Nat) (e : Encoded) (a : Nat) : Prop where
  labelled : ∃ scanned file settings info, LabelTable.scan item = .ok scanned ∧
    Code.debugInfo c item file settings scanned = .ok (info,labels)
  member : .instruction pc e ∈ (Walk.ofCode item.units).blocks
  operation : e.opcode.operation = .fillArrayData
  address : (pc : Int) + e.operands.literal = a

structure DecodesTo (c : Container) (item : CodeItem) (labels : LabelTable) (pc : Nat) (e : Encoded) (i : Instruction) : Prop where
  resolved : e.resolve c labels pc = .ok i
  handed : (DecodedBody.ofCode c item.units labels).ending = .ok () →
    .instruction pc e.opcode i ∈ (DecodedBody.ofCode c item.units labels).items

theorem FillsFrom.decodes (fills : FillsFrom c item labels pc e a) :
    DecodesTo c item labels pc e (.fillArrayData (e.reg 0) (CodeUnits.arrayData item.units a)) := by
  obtain ⟨scanned,file,settings,info,scan,debug⟩ := fills.labelled
  have surveyed := LabelTable.labels_surveyed scan debug
  obtain ⟨address,payload,user,reached,target,read,kind,-,parsed,-⟩ :=
    surveyed.table fills.member (table_format fills.member (.inl fills.operation))
  obtain rfl : address = a := Int.ofNat.inj ((target_distance reached).trans fills.address)
  rw [fills.operation] at kind
  have announced := kindOf_arrayData ((parse_kind parsed).trans (congrArg some kind))
  have inside := (parse_block parsed).2
  rw [kind] at inside
  rw [parse_arrayData announced inside] at parsed
  cases parsed
  have resolved : e.resolve c labels pc = .ok (.fillArrayData (e.reg 0) (CodeUnits.arrayData item.units address)) := by
    simp only [Encoded.resolve,fills.operation,target,ok_bind,read]
    rfl
  refine ⟨resolved,fun whole => ?_⟩
  have start : pc ∈ labels.starts := by
    rw [surveyed.starts]
    exact mem_starts.mpr ⟨e,fills.member⟩
  obtain ⟨i,handed,again⟩ := (ofCode_handsOn surveyed c).item whole start (block_decode fills.member)
  rw [resolved] at again
  cases again
  exact handed

namespace Lowering

variable {p : Plan} {s start : State} {r slot : Nat} {type : Descriptor} {element : Primitive}

theorem load_array (placed : p.slots.slot r = .ok slot) (typed : s.register r = .ok (.typed (.array type))) :
    load p r (.array type) s = .ok (s.emit (.load .reference slot)) := by
  simp only [load,placed,typed,kindOf,Descriptor.kind?,ok_bind]
  rfl

theorem storeData_patterns {patterns : List element.Pattern} (placed : p.slots.slot r = .ok slot)
    (typed : s.register r = .ok (.typed (.array element.type))) (first : Nat) :
    storeData p r (.array element.type) element.type element.arrayKind first (patterns.map BitVec.toNat) s =
      .ok (s.emitAll (element.stores slot first patterns)) := by
  induction patterns generalizing first s with
  | nil => rfl
  | cons pattern patterns ih =>
    simp only [List.map_cons,storeData,load_array placed typed,ok_bind,Primitive.dataConstant_pattern]
    refine (ih ?_ (first + 1)).trans rfl
    -- Emitting leaves the registers as they are.
    exact typed

theorem fillArrayData_typed (typed : s.register r = .ok (.typed (.array element.type))) (data : ArrayData) :
    fillArrayData p r data s =
      if data.elementWidth ≠ element.bytes then refuse (.fillWidth data.elementWidth element.type)
      else storeData p r (.array element.type) element.type element.arrayKind 0 data.elements s := by
  have width : dataWidth? element.type = some element.bytes := by cases element <;> rfl
  have kind : arrayKindOf element.type = .ok element.arrayKind := by cases element <;> rfl
  simp only [fillArrayData,typed,ok_bind,width,kind]
  split <;> rfl

theorem slot_reached {shape : MethodShape} {state : RegisterState} (prepared : prepare c shape item labels = .ok (p,start))
    (reached : Reaches p start s) (typed : s.register r = .ok state) : ∃ slot, p.slots.slot r = .ok slot := by
  have apart : s.Apart p := reached.keeps (apart_elementary p) (fun _ _ apart => apart.resolveDefaults) (prepare_apart prepared)
  have inside := (Frame.get_state typed).1
  rw [apart.size] at inside
  simp only [prepare,bind_eq_ok,pure_eq_ok,Prod.mk.injEq] at prepared
  obtain ⟨slots,counted,frame,-,handlers,-,rfl,-⟩ := prepared
  obtain ⟨rfl,enough⟩ := Slots.ofCounts_eq counted
  have known : Slots.ins ⟨item.registers.toNat,item.ins.toNat⟩ ≤ item.registers.toNat := enough
  obtain ⟨slot,-,placed⟩ := Slots.slot_ok known inside
  exact ⟨slot,placed⟩

end Lowering

-- Elements that are laid out as data are accepted as such, and are stored one by one where an
-- instruction fills an array of their type from them. Data of another width is refused there.
theorem array_data_stored (element : Primitive) (pad : UInt8) (patterns : List element.Pattern) (few : patterns.length < 2 ^ 31) :
    (∀ (code : CodeUnits) (a user : Nat), code.Stand a (element.block pad patterns) →
      a + (element.block pad patterns).length ≤ code.size →
      Payload.block? code a = .ok (some (.arrayData,(element.block pad patterns).length)) ∧
        Payload.parse code a user = .ok (.arrayData ⟨element.bytes,element.stored patterns⟩)) ∧
    (∀ i < patterns.length, (Int32.ofNat i).toInt = i) ∧
    (∀ c item labels pc e a, FillsFrom c item labels pc e a →
      (CodeUnits.Stand item.units a (element.block pad patterns) →
        ∃ i, DecodesTo c item labels pc e i ∧
          ∀ shape p start s, prepare c shape item labels = .ok (p,start) → Reaches p start s →
            s.register (e.reg 0) = .ok (.typed (.array element.type)) →
            ∃ slot, p.slots.slot (e.reg 0) = .ok slot ∧ step p i s = .ok (s.emitAll (element.stores slot 0 patterns))) ∧
      (CodeUnits.unit item.units (a + 1) ≠ element.bytes →
        ∃ i, DecodesTo c item labels pc e i ∧
          ∀ p s, s.register (e.reg 0) = .ok (.typed (.array element.type)) →
            step p i s = refuse (.fillWidth (CodeUnits.unit item.units (a + 1)) element.type))) := by
  refine ⟨?_,?_,?_⟩
  · intro code a user stand inside
    obtain ⟨announced,-,length⟩ := Primitive.dataBytes_block few stand
    rw [Primitive.block_length,← length] at inside ⊢
    refine ⟨block_arrayData announced (by omega),?_⟩
    rw [parse_arrayData announced inside,arrayData_block few stand]
  · intro i small
    exact Int32.toInt_ofNat_of_lt (by omega)
  · intro c item labels pc e a fills
    refine ⟨fun stand => ⟨_,fills.decodes,?_⟩,fun differs => ⟨_,fills.decodes,?_⟩⟩
    · intro shape p start s prepared reached typed
      obtain ⟨slot,placed⟩ := slot_reached prepared reached typed
      refine ⟨slot,placed,?_⟩
      rw [arrayData_block few stand,step,fillArrayData_typed typed,if_neg (by simp),Primitive.elements_stored]
      exact storeData_patterns placed typed 0
    · intro p s typed
      rw [step,fillArrayData_typed typed]
      exact if_pos differs

-- Three bytes into the array that is handed over. The last one shares its unit with the pad byte.
def oddBytes : CodeItem where
  registers := 1
  ins := 1
  outs := 0
  debugInfo := 0
  units := #[0x0026,0x0004,0x0000,0x000e,0x0300,0x0001,0x0003,0x0000,0x7f80,0xff01]
  tries := []
  handlers := []

def oddBytesShape : MethodShape := ⟨.object "a/T",true,⟨[.array .byte],.void⟩⟩

theorem array_data_stored_oddBytes :
    ∃ labels p start e i, LabelTable.scan oddBytes = .ok labels ∧ prepare bare oddBytesShape oddBytes labels = .ok (p,start) ∧
      FillsFrom bare oddBytes labels 0 e 4 ∧ CodeUnits.Stand oddBytes.units 4 (Primitive.block .byte 0xff [0x80,0x7f,0x01]) ∧
      DecodesTo bare oddBytes labels 0 e i ∧ step p i start = .ok (start.emitAll [
        .load .reference 0,.const (.int 0),.const (.int (-128)),.arrayStore .byte,
        .load .reference 0,.const (.int 1),.const (.int 127),.arrayStore .byte,
        .load .reference 0,.const (.int 2),.const (.int 1),.arrayStore .byte]) := by
  obtain ⟨labels,p,start,e,scanned,prepared,member,operation,address,typed,placed⟩ : ∃ labels p start e,
      LabelTable.scan oddBytes = .ok labels ∧ prepare bare oddBytesShape oddBytes labels = .ok (p,start) ∧
        .instruction 0 e ∈ (Walk.ofCode oddBytes.units).blocks ∧ e.opcode.operation = .fillArrayData ∧
        ((0 : Nat) : Int) + e.operands.literal = (4 : Nat) ∧ start.register (e.reg 0) = .ok (.typed (.array .byte)) ∧
        p.slots.slot (e.reg 0) = .ok 0 := ⟨_,_,_,_,rfl,rfl,List.mem_cons_self,rfl,rfl,rfl,rfl⟩
  have fills : FillsFrom bare oddBytes labels 0 e 4 := ⟨⟨labels,none,{},none,scanned,rfl⟩,member,operation,address⟩
  have stand : CodeUnits.Stand oddBytes.units 4 (Primitive.block .byte 0xff [0x80,0x7f,0x01]) := by
    refine ⟨?_,?_,?_,?_,?_,?_,trivial⟩ <;> rfl
  obtain ⟨i,decodes,stores⟩ := ((array_data_stored .byte 0xff [0x80,0x7f,0x01] (by decide)).2.2 bare oddBytes labels 0 e 4 fills).1 stand
  obtain ⟨slot,found,stepped⟩ := stores oddBytesShape p start start prepared .start typed
  rw [placed] at found
  cases found
  exact ⟨labels,p,start,e,i,scanned,prepared,fills,stand,decodes,stepped.trans rfl⟩

end Restack
