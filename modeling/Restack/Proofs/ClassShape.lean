import Mathlib
import Restack.Proofs.Descriptor
import Restack.Proofs.Lowering.Run
import Restack.Proofs.Class.Layout
import Restack.Proofs.Container.StoredValues

namespace Restack

-- A tree of a class has the names, the fields and the methods of the definition, in its order, none left out and
-- none twice.

variable {c : Container} {settings : Settings} {d : ClassDef} {directory : Option Directory} {defaults : Option Annot}
  {entry : MethodEntry} {part : ClassPart} {node : ClassNode}

-- The name by which class references know the type that a descriptor spells.
def Names (descriptor name : String) : Prop := ∃ type : Descriptor, type.text = descriptor ∧ type.internalName = name

theorem internalNameOf_names {descriptor name : String} (found : internalNameOf descriptor = .ok name) : Names descriptor name := by
  simp only [internalNameOf,bind_eq_ok,pure_eq_ok] at found
  obtain ⟨type,spelled,rfl⟩ := found
  unfold Descriptor.ofText at spelled
  split at spelled
  · rename_i parsed
    cases spelled
    exact ⟨type,Descriptor.parse_text parsed,rfl⟩
  · cases spelled

structure StoredMembers where
  staticFields : List (UInt32 × UInt32)
  instanceFields : List (UInt32 × UInt32)
  directMethods : List (UInt32 × UInt32 × UInt32)
  virtualMethods : List (UInt32 × UInt32 × UInt32)
deriving DecidableEq

namespace StoredMembers

def field : Reader (UInt32 × UInt32) := do
  let difference ← Reader.uleb128
  let accessFlags ← Reader.uleb128
  return (difference,accessFlags)

def method : Reader (UInt32 × UInt32 × UInt32) := do
  let difference ← Reader.uleb128
  let accessFlags ← Reader.uleb128
  let code ← Reader.uleb128
  return (difference,accessFlags,code)

def read : Reader StoredMembers := do
  let staticFields ← Reader.uleb128
  let instanceFields ← Reader.uleb128
  let directMethods ← Reader.uleb128
  let virtualMethods ← Reader.uleb128
  let staticFields ← Reader.times staticFields.toNat field
  let instanceFields ← Reader.times instanceFields.toNat field
  let directMethods ← Reader.times directMethods.toNat method
  let virtualMethods ← Reader.times virtualMethods.toNat method
  return { staticFields, instanceFields, directMethods, virtualMethods }

def indexed (previous : UInt32) (stored : List (UInt32 × α)) : List (UInt32 × α) :=
  stored.mapIdx fun i s => (previous + ((stored.take (i + 1)).map Prod.fst).sum,s.2)

def fieldEntries (previous : UInt32) (stored : List (UInt32 × UInt32)) : List FieldEntry :=
  (indexed previous stored).map fun (field,accessFlags) => ⟨field,accessFlags⟩

def methodEntries (previous : UInt32) (stored : List (UInt32 × UInt32 × UInt32)) : List MethodEntry :=
  (indexed previous stored).map fun (method,accessFlags,code) => ⟨method,accessFlags,code⟩

def entries (s : StoredMembers) : ClassData where
  staticFields := fieldEntries 0 s.staticFields
  instanceFields := fieldEntries 0 s.instanceFields
  directMethods := methodEntries 0 s.directMethods
  virtualMethods := methodEntries 0 s.virtualMethods

theorem indexed_cons (previous difference : UInt32) (a : α) (rest : List (UInt32 × α)) :
    indexed previous ((difference,a) :: rest) = (previous + difference,a) :: indexed (previous + difference) rest := by
  simp [indexed,List.mapIdx_cons,UInt32.add_assoc]

variable {bytes : Bytes} {start stop : Nat}

theorem readFields_stored {count i : Nat} {previous : UInt32} {found : List FieldEntry}
    (done : ClassData.readFields count previous bytes start = .ok (found,stop)) :
    ∃ stored, Reader.timesFrom (fun _ => field) i count bytes start = .ok (stored,stop) ∧ found = fieldEntries previous stored := by
  induction count generalizing i previous start found with
  | zero =>
    cases done
    exact ⟨[],rfl,rfl⟩
  | succ count ih =>
    simp only [ClassData.readFields,reader_bind_ok,reader_pure_ok] at done
    obtain ⟨difference,one,first,flags,two,second,rest,three,later,rfl,rfl⟩ := done
    obtain ⟨stored,told,rfl⟩ := ih (i := i + 1) later
    refine ⟨(difference,flags) :: stored,?_,by simp [fieldEntries,indexed_cons]⟩
    simp only [Reader.timesFrom,field,reader_bind_ok,reader_pure_ok]
    exact ⟨_,two,⟨_,_,first,_,_,second,rfl,rfl⟩,_,_,told,rfl,rfl⟩

theorem readMethods_stored {count i : Nat} {previous : UInt32} {found : List MethodEntry}
    (done : ClassData.readMethods count previous bytes start = .ok (found,stop)) :
    ∃ stored, Reader.timesFrom (fun _ => method) i count bytes start = .ok (stored,stop) ∧ found = methodEntries previous stored := by
  induction count generalizing i previous start found with
  | zero =>
    cases done
    exact ⟨[],rfl,rfl⟩
  | succ count ih =>
    simp only [ClassData.readMethods,reader_bind_ok,reader_pure_ok] at done
    obtain ⟨difference,one,first,flags,two,second,code,three,third,rest,four,later,rfl,rfl⟩ := done
    obtain ⟨stored,told,rfl⟩ := ih (i := i + 1) later
    refine ⟨(difference,flags,code) :: stored,?_,by simp [methodEntries,indexed_cons]⟩
    simp only [Reader.timesFrom,method,reader_bind_ok,reader_pure_ok]
    exact ⟨_,three,⟨_,_,first,_,_,second,_,_,third,rfl,rfl⟩,_,_,told,rfl,rfl⟩

theorem read_stored {data : ClassData} (done : ClassData.read bytes start = .ok (data,stop)) :
    ∃ stored, read bytes start = .ok (stored,stop) ∧ data = stored.entries := by
  simp only [ClassData.read,reader_bind_ok,reader_pure_ok] at done
  obtain ⟨_,_,one,_,_,two,_,_,three,_,_,four,_,_,statics,_,_,instances,_,_,direct,_,_,virtual,rfl,rfl⟩ := done
  obtain ⟨_,first,rfl⟩ := readFields_stored (i := 0) statics
  obtain ⟨_,second,rfl⟩ := readFields_stored (i := 0) instances
  obtain ⟨_,third,rfl⟩ := readMethods_stored (i := 0) direct
  obtain ⟨_,fourth,rfl⟩ := readMethods_stored (i := 0) virtual
  refine ⟨⟨_,_,_,_⟩,?_,rfl⟩
  simp only [read,Reader.times,reader_bind_ok,reader_pure_ok]
  exact ⟨_,_,one,_,_,two,_,_,three,_,_,four,_,_,first,_,_,second,_,_,third,_,_,fourth,rfl,rfl⟩

theorem classData_stored {data : ClassData} (found : c.classData d = .ok (some data)) :
    d.row.classData ≠ 0 ∧ ∃ stored, read.valueAt c.bytes d.row.classData.toNat = .ok stored ∧ data = stored.entries := by
  unfold Container.classData at found
  split at found
  · cases found
  · rename_i present
    rw [within_eq_ok] at found
    cases told : ClassData.read c.bytes d.row.classData.toNat with
    | error f => simp [Reader.valueAt,told,Except.map] at found
    | ok result =>
      obtain ⟨stored,here,same⟩ := read_stored told
      simp only [Reader.valueAt,told,Except.map,Except.ok.injEq,Option.some.injEq] at found
      exact ⟨present,stored,by rw [Reader.valueAt,here],found.symm.trans same⟩

theorem classData_missing (found : c.classData d = .ok none) : d.row.classData = 0 := by
  unfold Container.classData at found
  split at found
  · assumption
  · rw [within_eq_ok] at found
    cases told : ClassData.read.valueAt c.bytes d.row.classData.toNat <;> simp [told,Except.map] at found

end StoredMembers

-- The initial values by the bytes at their offset; without one there are none.
def StaticValuesAt (bytes : Bytes) (place : UInt32) (values : List Value) : Prop :=
  (place = 0 ∧ values = []) ∨ (place ≠ 0 ∧ ∃ stop, ItemsAt bytes place.toNat values stop)

theorem staticValues_at {values : List Value} (found : c.staticValues d = .ok values) : StaticValuesAt c.bytes d.row.staticValues values := by
  unfold Container.staticValues at found
  split at found
  · rename_i none
    cases found
    exact .inl ⟨none,rfl⟩
  · rename_i present
    rw [within_eq_ok,Reader.valueAt_ok] at found
    obtain ⟨stop,read⟩ := found
    exact .inr ⟨present,stop,Value.readArray_iff.mp read⟩

-- Values that a class file has a constant for.
def Value.isConstant : Value → Bool
  | .byte _ | .short _ | .char _ | .int _ | .long _ | .float _ | .double _ | .boolean _ | .string _ => true
  | _ => false

-- The constant for an initial value: the same number, or the same text.
inductive Initial (c : Container) : Option Value → Option FieldValue → Prop where
  | missing : Initial c none none
  | byte (v : Int8) (n : Int32) : n.toInt = v.toInt → Initial c (some (.byte v)) (some (.int n))
  | short (v : Int16) (n : Int32) : n.toInt = v.toInt → Initial c (some (.short v)) (some (.int n))
  | char (v : UInt16) (n : Int32) : n.toInt = v.toNat → Initial c (some (.char v)) (some (.int n))
  | boolean (v : Bool) (n : Int32) : n.toInt = v.toNat → Initial c (some (.boolean v)) (some (.int n))
  | int (v : Int32) : Initial c (some (.int v)) (some (.int v))
  | long (v : Int64) : Initial c (some (.long v)) (some (.long v))
  | float (bits : UInt32) : Initial c (some (.float bits)) (some (.float bits))
  | double (bits : UInt64) : Initial c (some (.double bits)) (some (.double bits))
  | string (index : UInt32) (text : String) : c.string index = .ok text → Initial c (some (.string index)) (some (.string text))
  | other (v : Value) : v.isConstant = false → Initial c (some v) none

theorem Initial.of_int {v : Int32} {constant : Option FieldValue} (initial : Initial c (some (.int v)) constant) : constant = some (.int v) := by
  cases initial with
  | int => rfl
  | other _ never => cases never

theorem fieldValue_initial {v : Value} {constant : Option FieldValue} (found : c.fieldValue v = .ok constant) :
    Initial c (some v) constant := by
  cases v with
  | byte v =>
    cases found
    exact .byte v _ (Int8.toInt_toInt32 v)
  | short v =>
    cases found
    exact .short v _ (Int16.toInt_toInt32 v)
  | char v =>
    cases found
    have bound := v.toNat_lt
    exact .char v _ (Int32.toInt_ofNat_of_lt (by omega))
  | boolean v =>
    cases found
    exact .boolean v _ (by cases v <;> rfl)
  | int v =>
    cases found
    exact .int v
  | long v =>
    cases found
    exact .long v
  | float bits =>
    cases found
    exact .float bits
  | double bits =>
    cases found
    exact .double bits
  | string index =>
    simp only [Container.fieldValue,bind_eq_ok,pure_eq_ok] at found
    obtain ⟨text,named,rfl⟩ := found
    exact .string index text named
  | _ =>
    cases found
    exact .other _ rfl

theorem ofMethod_bits (flags : UInt32) {bit : Nat} (low : bit < 16) :
    (Access.ofMethod flags).toNat.testBit bit = (flags.toNat.testBit bit || (decide (bit = 5) && flags.toNat.testBit 17)) := by
  have kept : flags.toUInt16.toNat.testBit bit = flags.toNat.testBit bit := by
    rw [UInt32.toNat_toUInt16,Nat.testBit_mod_two_pow]
    simp [low]
  have added : Access.isSynchronized.toNat.testBit bit = decide (bit = 5) := by
    change (2 ^ 5).testBit bit = _
    rw [Nat.testBit_two_pow]
    simp [eq_comm]
  have declared : flags &&& Access.declaredSynchronized ≠ 0 ↔ flags.toNat.testBit 17 = true := by
    have masked : (flags &&& Access.declaredSynchronized).toNat = (flags.toNat.testBit 17).toNat * 2 ^ 17 := by
      rw [UInt32.toNat_and]
      exact Nat.and_two_pow _ 17
    rw [ne_eq,← UInt32.toNat_inj,masked]
    cases flags.toNat.testBit 17 <;> simp
  unfold Access.ofMethod
  simp only [bne_iff_ne,declared]
  cases flags.toNat.testBit 17 with
  | false => rw [if_neg Bool.false_ne_true,kept,Bool.and_false,Bool.or_false]
  | true => rw [if_pos rfl,UInt16.toNat_or,Nat.testBit_or,kept,added,Bool.and_true]

structure KeepsField (c : Container) (field : FieldEntry × Option Value) (node : FieldNode) : Prop where
  named : ∃ f, c.field field.1.field = .ok f ∧ node.header.name = f.name ∧ node.header.desc = f.type
  access : node.header.access.toNat = field.1.accessFlags.toNat % 65536
  constant : Initial c field.2 node.header.value

structure KeepsMethod (c : Container) (entry : MethodEntry) (node : MethodNode) : Prop where
  named : ∃ m, c.method entry.method = .ok m ∧ node.header.name = m.name ∧
    node.header.desc = "(" ++ String.join m.proto.parameters ++ ")" ++ m.proto.result
  access : ∀ bit < 16, node.header.access.toNat.testBit bit =
    (entry.accessFlags.toNat.testBit bit || (decide (bit = 5) && entry.accessFlags.toNat.testBit 17))
  code : node.code.isSome ↔ entry.code ≠ 0

namespace Container

theorem Declared.keeps {field : FieldEntry × Option Value} {node : FieldNode} (declared : Declared c field part node) :
    KeepsField c field node where
  named := declared.named
  access := by
    rw [declared.access]
    exact UInt32.toNat_toUInt16 _
  constant := by
    obtain ⟨entry,value⟩ := field
    have valued := declared.valued
    cases value with
    | none =>
      simp only [initialValue,pure_eq_ok] at valued
      rw [← valued]
      exact .missing
    | some v => exact fieldValue_initial valued

theorem describeMethod_keeps (told : c.describeMethod settings .everything d directory defaults entry = .ok part) :
    ClassNode.field? part = none ∧ ∃ node, ClassNode.method? part = some node ∧ KeepsMethod c entry node := by
  rw [describeMethod_eq] at told
  simp only [bind_eq_ok,pure_eq_ok] at told
  obtain ⟨front,headed,parts,body,rfl⟩ := told
  have headed := methodFront_headed headed
  refine ⟨rfl,_,rfl,headed.named,?_,?_⟩
  · intro bit low
    change front.header.access.toNat.testBit bit = _
    rw [headed.access,ofMethod_bits _ low]
  · have bodiless : front.parts.filterMap MethodNode.code? = [] := List.filterMap_eq_nil_iff.mpr headed.bodiless
    unfold bodyParts at body
    split at body
    · rename_i none
      cases body
      simp [MethodNode.ofDescription,bodiless,none]
    · rename_i present
      simp only [bind_eq_ok,pure_eq_ok] at body
      obtain ⟨code,-,rfl⟩ := body
      simp [MethodNode.ofDescription,bodiless,present,MethodNode.code?]

theorem Framed.fieldNodes {s : Surroundings} (framed : Framed c d s) {parts : List ClassPart}
    (others : ∀ part ∈ parts, ClassNode.field? part = none) :
    (ClassNode.ofDescription (s.close parts)).fields = s.fields.filterMap ClassNode.field? := by
  have front : s.front.filterMap ClassNode.field? = [] := List.filterMap_eq_nil_iff.mpr fun part member => (framed.front part member).1
  have methods : parts.filterMap ClassNode.field? = [] := List.filterMap_eq_nil_iff.mpr others
  simp [ClassNode.ofDescription,Surroundings.close,List.filterMap_append,front,methods]

theorem superNameOf_names {superclass name : Option String} (found : superNameOf superclass = .ok name) :
    Option.Rel Names superclass name := by
  cases superclass with
  | none =>
    cases found
    exact .none
  | some descriptor =>
    simp only [superNameOf,bind_eq_ok,pure_eq_ok] at found
    obtain ⟨name,named,rfl⟩ := found
    exact .some (internalNameOf_names named)

end Container

open Container

theorem class_shape_kept (c : Container) (settings : Settings) (d : ClassDef) (node : ClassNode)
    (done : c.classNode settings d = .ok node) :
    Names d.descriptor node.header.name ∧
    Option.Rel Names d.superclass node.header.superName ∧
    List.Forall₂ Names d.interfaces node.header.interfaces ∧
    ((d.row.classData = 0 ∧ node.fields = [] ∧ node.methods = []) ∨
      (d.row.classData ≠ 0 ∧ ∃ stored values,
        StoredMembers.read.valueAt c.bytes d.row.classData.toNat = .ok stored ∧ StaticValuesAt c.bytes d.row.staticValues values ∧
        List.Forall₂ (KeepsField c) (stored.entries.fieldsWith values) node.fields ∧
        List.Forall₂ (KeepsMethod c) (stored.entries.directMethods ++ stored.entries.virtualMethods) node.methods)) := by
  obtain ⟨s,parts,found,rfl,told⟩ := classNode_parts done
  have framed := surroundings_framed found
  refine ⟨internalNameOf_names framed.name,superNameOf_names framed.superName,
    (mapM_eq_ok.mp framed.interfaces).imp fun _ _ named => internalNameOf_names named,?_⟩
  have told := mapM_eq_ok.mp told
  have fields := framed.fieldNodes (forall₂_right (fun _ _ described => (describeMethod_keeps described).1) told)
  rw [fields,framed.methodNodes]
  rcases framed.listed with ⟨missing,none,nothing⟩ | ⟨data,values,listed,valued,declared,methods⟩
  · rw [nothing,List.forall₂_nil_left_iff] at told
    exact .inl ⟨StoredMembers.classData_missing missing,by rw [none]; rfl,by rw [told]; rfl⟩
  · obtain ⟨present,stored,read,rfl⟩ := StoredMembers.classData_stored listed
    rw [methods] at told
    refine .inr ⟨present,stored,values,read,staticValues_at valued,?_,?_⟩
    · exact forall₂_filterMap (fun _ _ declared => declared.elim fun node told => ⟨node,told.read,told.keeps⟩) declared
    · exact forall₂_filterMap (fun _ _ described => (describeMethod_keeps described).2) told

-- An interface with the constant x and a method without code. The second initial value has no field to go to.
def oneConstant : Container := { Lowering.bare with
  strings := #["LT;","Ljava/lang/Object;","I","V","x","f"]
  types := #[0,1,2,3]
  protos := #[⟨3,3,0⟩]
  fields := #[⟨0,2,4⟩]
  methods := #[⟨0,0,5⟩]
  bytes := #[0, 1,0,0,1, 0,0x19, 0,0x81,8,0, 2, 0x04,7, 0x1e] }

def oneConstantClass : ClassDef := ⟨"LT;",0x601,some "Ljava/lang/Object;",[],none,⟨0,0x601,1,0,noIndex,0,1,11⟩⟩

theorem oneConstant_values : ItemsAt oneConstant.bytes 11 [.int 7,.null] 15 := by
  have count : NumberAt oneConstant.bytes 11 2 12 := ⟨[2],by decide,by decide +kernel,by decide,rfl⟩
  have header : oneConstant.bytes[12]? = some 4 := rfl
  have seven : ValueAt oneConstant.bytes 12 (.int 7) 14 :=
    .leaf header (by decide) (Value.stored_of_made (by decide) (by decide +kernel) rfl rfl (by decide))
  have last : oneConstant.bytes[14]? = some 0x1e := rfl
  exact ⟨2,12,count,rfl,.cons seven (.cons (.null last rfl) (.nil 15))⟩

theorem class_shape_kept_oneConstant :
    ∃ node field method, oneConstant.classNode {} oneConstantClass = .ok node ∧
      Names "LT;" node.header.name ∧ Option.Rel Names (some "Ljava/lang/Object;") node.header.superName ∧
      node.fields = [field] ∧ field.header.name = "x" ∧ field.header.desc = "I" ∧ field.header.value = some (.int 7) ∧
      node.methods = [method] ∧ method.header.name = "f" ∧ method.header.desc = "()V" ∧ method.code = none := by
  have accepted : (oneConstant.classNode {} oneConstantClass).toBool = true := by decide +kernel
  have members : (StoredMembers.read.valueAt oneConstant.bytes 1).toOption = some ⟨[(0,0x19)],[],[],[(0,0x401,0)]⟩ := by decide +kernel
  have x : (oneConstant.field 0).toOption.map (fun f => (f.name,f.type)) = some ("x","I") := by decide +kernel
  have f : (oneConstant.method 0).toOption.map (fun m => (m.name,"(" ++ String.join m.proto.parameters ++ ")" ++ m.proto.result)) =
    some ("f","()V") := by decide +kernel
  cases done : oneConstant.classNode {} oneConstantClass with
  | error f => simp [done,Except.toBool] at accepted
  | ok node =>
    obtain ⟨name,superName,-,shape⟩ := class_shape_kept oneConstant {} oneConstantClass node done
    rcases shape with ⟨missing,-,-⟩ | ⟨-,stored,values,read,valued,fields,methods⟩
    · exact absurd missing (by decide)
    · obtain ⟨none,-⟩ | ⟨-,stop,valued⟩ := valued
      · exact absurd none (by decide)
      · cases valued.unique oneConstant_values
        cases (toOption_eq_some.mp members).symm.trans read
        obtain ⟨field,_,kept,rest,fields⟩ := List.forall₂_cons_left_iff.mp fields
        obtain ⟨method,_,carried,others,methods⟩ := List.forall₂_cons_left_iff.mp methods
        rw [List.forall₂_nil_left_iff.mp rest] at fields
        rw [List.forall₂_nil_left_iff.mp others] at methods
        obtain ⟨⟨known,found,named,typed⟩,-,constant⟩ := kept
        obtain ⟨⟨signature,located,called,described⟩,-,code⟩ := carried
        have found : oneConstant.field 0 = .ok known := found
        have located : oneConstant.method 0 = .ok signature := located
        simp only [found,Except.toOption,Option.map_some,Option.some.injEq,Prod.mk.injEq] at x
        simp only [located,Except.toOption,Option.map_some,Option.some.injEq,Prod.mk.injEq] at f
        have bodiless : method.code = none := Option.not_isSome_iff_eq_none.mp fun some => code.mp some rfl
        exact ⟨node,field,method,rfl,name,superName,fields,named.trans x.1,typed.trans x.2,constant.of_int,
          methods,called.trans f.1,described.trans f.2,bodiless⟩

end Restack
