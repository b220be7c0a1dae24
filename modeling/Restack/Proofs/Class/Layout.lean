import Mathlib
import Restack.Class.Basic
import Restack.Proofs.Container.Contents

namespace Restack

-- How the description of a class is put together: all that does not depend on method bodies first, then the
-- methods one by one, and of each method its body last.

variable {c : Container} {settings : Settings} {d : ClassDef} {directory : Option Directory} {defaults : Option Annot}
  {entry : MethodEntry} {m : MethodName}

theorem forall₂_filterMap {R : α → β → Prop} {S : α → γ → Prop} {read : β → Option γ} {items : List α} {results : List β}
    (each : ∀ a b, R a b → ∃ c, read b = some c ∧ S a c) (all : List.Forall₂ R items results) :
    List.Forall₂ S items (results.filterMap read) := by
  induction all with
  | nil => exact .nil
  | cons here _ ih =>
    obtain ⟨found,known,holds⟩ := each _ _ here
    rw [List.filterMap_cons_some known]
    exact .cons holds ih

theorem forall₂_right {R : α → β → Prop} {P : β → Prop} {items : List α} {results : List β} (each : ∀ a b, R a b → P b)
    (all : List.Forall₂ R items results) : ∀ b ∈ results, P b := by
  induction all with
  | nil => simp
  | cons here _ ih => exact List.forall_mem_cons.mpr ⟨each _ _ here,ih⟩

-- All the fields of a class, the static ones first. Only these have initial values, which are matched by position.
def ClassData.fieldsWith (data : ClassData) (values : List Value) : List (FieldEntry × Option Value) :=
  (data.staticFields.mapIdx fun i entry => (entry,values[i]?)) ++ data.instanceFields.map fun entry => (entry,none)

-- A class without its methods.
structure Surroundings where
  directory : Option Directory
  defaults : Option Annot
  header : ClassHeader
  front : List ClassPart
  fields : List ClassPart
  methods : List MethodEntry

def Surroundings.close (s : Surroundings) (methods : List ClassPart) : ClassDescription :=
  ⟨s.header,s.front ++ s.fields ++ methods⟩

namespace Container

def superNameOf (superclass : Option String) : Except Fault (Option String) :=
  match superclass with
  | none => pure none
  | some descriptor => do pure (some (← internalNameOf descriptor))

def membersOf (c : Container) (d : ClassDef) (directory : Option Directory) : Except Fault (List ClassPart × List MethodEntry) := do
  match ← c.classData d with
  | none => return ([],[])
  | some data =>
    let values ← c.staticValues d
    let statics ← c.describeFields .everything directory data.staticFields values
    let instances ← c.describeFields .everything directory data.instanceFields []
    return (statics ++ instances,data.directMethods ++ data.virtualMethods)

def surroundings (c : Container) (settings : Settings) (d : ClassDef) : Except Fault Surroundings := do
  let directory ← c.annotationsDirectory d
  let items ← c.annotsAt (directory.map Directory.classOffset)
  let info ← SystemInfo.ofItems c items
  let name ← internalNameOf d.descriptor
  let superName ← superNameOf d.superclass
  let interfaces ← d.interfaces.mapM internalNameOf
  let annots ← c.describeAnnots .everything true items
  let inner ← info.memberClasses.mapM fun member => do
    let inner ← c.memberClass member
    return ClassPart.inner { name := member, outerName := some name, innerName := inner.name, access := inner.access }
  let (fields,methods) ← c.membersOf d directory
  return {
    directory
    defaults := info.defaults
    header :=
      { version := settings.classVersion, access := Access.ofClass d.accessFlags, name, signature := info.signature,
        superName, interfaces }
    front :=
      d.sourceFile.toList.map .source ++ (outerClass info).toList.map .outer ++ annots.map .annot ++
        (ownInner name info).toList.map .inner ++ inner
    fields
    methods }

theorem describeMembers_eq (c : Container) (settings : Settings) (d : ClassDef) (directory : Option Directory) (defaults : Option Annot) :
    c.describeMembers settings .everything d directory defaults = (do
      let (fields,methods) ← c.membersOf d directory
      let parts ← methods.mapM (c.describeMethod settings .everything d directory defaults)
      return fields ++ parts) := by
  unfold describeMembers membersOf
  rw [bind_assoc]
  refine bind_congr fun data => ?_
  cases data with
  | none => rfl
  | some data => simp only [bind_assoc,pure_bind]

theorem describe_eq (c : Container) (settings : Settings) (d : ClassDef) :
    c.describe settings .everything d = within (.definition d.descriptor) (do
      let s ← c.surroundings settings d
      let parts ← s.methods.mapM (c.describeMethod settings .everything d s.directory s.defaults)
      return s.close parts) := by
  unfold describe surroundings
  congr 1
  simp only [bind_assoc,describeMembers_eq]
  refine bind_congr fun directory => bind_congr fun items => bind_congr fun info => bind_congr fun name => ?_
  unfold superNameOf
  cases d.superclass with
  | none => simp [Surroundings.close, Interest.everything, List.append_assoc]
  | some descriptor => simp [Surroundings.close, Interest.everything, List.append_assoc]

structure Framed (c : Container) (d : ClassDef) (s : Surroundings) : Prop where
  name : internalNameOf d.descriptor = .ok s.header.name
  superName : superNameOf d.superclass = .ok s.header.superName
  interfaces : d.interfaces.mapM internalNameOf = .ok s.header.interfaces
  front : ∀ part ∈ s.front, ClassNode.field? part = none ∧ ClassNode.method? part = none
  members : c.membersOf d s.directory = .ok (s.fields,s.methods)

theorem surroundings_framed {s : Surroundings} (found : c.surroundings settings d = .ok s) : Framed c d s := by
  simp only [surroundings,bind_eq_ok,pure_eq_ok] at found
  obtain ⟨directory,-,items,-,info,-,name,named,superName,above,interfaces,listed,annots,-,inner,told,⟨fields,methods⟩,members,rfl⟩ := found
  refine ⟨named,above,listed,?_,members⟩
  intro part member
  simp only [List.mem_append,List.mem_map] at member
  rcases member with (((⟨_,-,rfl⟩ | ⟨_,-,rfl⟩) | ⟨_,-,rfl⟩) | ⟨_,-,rfl⟩) | listed
  · exact ⟨rfl,rfl⟩
  · exact ⟨rfl,rfl⟩
  · exact ⟨rfl,rfl⟩
  · exact ⟨rfl,rfl⟩
  · obtain ⟨one,-,described⟩ := mem_mapM told listed
    simp only [bind_eq_ok,pure_eq_ok] at described
    obtain ⟨_,-,rfl⟩ := described
    exact ⟨rfl,rfl⟩

def initialValue (c : Container) (value : Option Value) : Except Fault (Option FieldValue) :=
  match value with
  | none => pure none
  | some v => c.fieldValue v

structure Declared (c : Container) (field : FieldEntry × Option Value) (part : ClassPart) (node : FieldNode) : Prop where
  read : ClassNode.field? part = some node
  passed : ClassNode.method? part = none
  named : ∃ f, c.field field.1.field = .ok f ∧ node.header.name = f.name ∧ node.header.desc = f.type
  access : node.header.access = Access.ofField field.1.accessFlags
  valued : c.initialValue field.2 = .ok node.header.value

theorem describeField_declared {field : FieldEntry} {value : Option Value} {initial : Option FieldValue} {part : ClassPart}
    (valued : c.initialValue value = .ok initial) (told : c.describeField .everything directory field initial = .ok part) :
    ∃ node, Declared c (field,value) part node := by
  simp only [describeField,bind_eq_ok,pure_eq_ok] at told
  obtain ⟨f,named,items,-,info,-,annots,-,rfl⟩ := told
  exact ⟨_,rfl,rfl,⟨f,named,rfl,rfl⟩,rfl,valued⟩

theorem describeFields_each {entries : List FieldEntry} {values : List Value} {parts : List ClassPart}
    (told : c.describeFields .everything directory entries values = .ok parts) :
    List.Forall₂ (fun field part => ∃ initial, c.initialValue field.2 = .ok initial ∧
      c.describeField .everything directory field.1 initial = .ok part) (entries.mapIdx fun i entry => (entry,values[i]?)) parts := by
  induction entries generalizing values parts with
  | nil =>
    cases told
    exact .nil
  | cons entry entries ih =>
    have rest : ∀ initial, c.initialValue values[0]? = .ok initial → (do
          let here ← c.describeField .everything directory entry initial
          return here :: (← c.describeFields .everything directory entries values.tail)) = .ok parts →
        List.Forall₂ (fun field part => ∃ initial, c.initialValue field.2 = .ok initial ∧
          c.describeField .everything directory field.1 initial = .ok part)
          ((entry :: entries).mapIdx fun i entry => (entry,values[i]?)) parts := by
      intro initial valued told
      simp only [bind_eq_ok,pure_eq_ok] at told
      obtain ⟨part,here,others,later,rfl⟩ := told
      rw [List.mapIdx_cons]
      refine .cons ⟨initial,valued,here⟩ ?_
      simpa only [List.getElem?_tail] using ih later
    unfold describeFields at told
    cases values with
    | nil => exact rest none rfl told
    | cons v values =>
      simp only [List.head?_cons] at told
      rw [bind_eq_ok] at told
      obtain ⟨initial,valued,told⟩ := told
      exact rest initial valued told

theorem describeFields_declared {entries : List FieldEntry} {values : List Value} {parts : List ClassPart}
    (told : c.describeFields .everything directory entries values = .ok parts) :
    List.Forall₂ (fun field part => ∃ node, Declared c field part node) (entries.mapIdx fun i entry => (entry,values[i]?)) parts :=
  (describeFields_each told).imp fun _ _ ⟨_,valued,here⟩ => describeField_declared valued here

theorem Framed.listed {s : Surroundings} (framed : Framed c d s) :
    (c.classData d = .ok none ∧ s.fields = [] ∧ s.methods = []) ∨
    ∃ data values, c.classData d = .ok (some data) ∧ c.staticValues d = .ok values ∧
      List.Forall₂ (fun field part => ∃ node, Declared c field part node) (data.fieldsWith values) s.fields ∧
      s.methods = data.directMethods ++ data.virtualMethods := by
  have members := framed.members
  simp only [membersOf,bind_eq_ok] at members
  obtain ⟨data,found,members⟩ := members
  cases data with
  | none =>
    simp only [pure_eq_ok,Prod.mk.injEq] at members
    exact .inl ⟨found,members.1.symm,members.2.symm⟩
  | some data =>
    simp only [bind_eq_ok,pure_eq_ok,Prod.mk.injEq] at members
    obtain ⟨values,valued,statics,first,instances,second,fields,methods⟩ := members
    refine .inr ⟨data,values,found,valued,?_,methods.symm⟩
    have unvalued : (data.instanceFields.mapIdx fun i entry => (entry,([] : List Value)[i]?)) =
        data.instanceFields.map fun entry => (entry,none) := by
      apply List.ext_getElem <;> simp
    rw [← fields]
    exact List.rel_append (describeFields_declared first) (unvalued ▸ describeFields_declared second)

theorem Framed.fields {s : Surroundings} (framed : Framed c d s) : ∀ part ∈ s.fields, ClassNode.method? part = none := by
  rcases framed.listed with ⟨-,none,-⟩ | ⟨data,values,-,-,declared,-⟩
  · simp [none]
  · exact forall₂_right (fun _ _ told => told.elim fun _ told => told.passed) declared

theorem Framed.methodNodes {s : Surroundings} (framed : Framed c d s) (parts : List ClassPart) :
    (ClassNode.ofDescription (s.close parts)).methods = parts.filterMap ClassNode.method? := by
  have front : s.front.filterMap ClassNode.method? = [] := List.filterMap_eq_nil_iff.mpr fun part member => (framed.front part member).2
  have fields : s.fields.filterMap ClassNode.method? = [] := List.filterMap_eq_nil_iff.mpr framed.fields
  simp [ClassNode.ofDescription,Surroundings.close,List.filterMap_append,front,fields]

theorem surroundings_inContainer (c : Container) (settings : Settings) (d : ClassDef) : InContainer (c.surroundings settings d) := by
  have above : InContainer (superNameOf d.superclass) := by
    unfold superNameOf
    split
    · exact inContainer_ok _
    · exact (internalNameOf_inContainer _).bind fun _ => inContainer_ok _
  have members : ∀ directory, InContainer (c.membersOf d directory) := by
    intro directory
    refine (classData_inContainer c d).bind fun data => ?_
    cases data with
    | none => exact inContainer_ok _
    | some data =>
      exact (staticValues_inContainer c d).bind fun _ => (describeFields_inContainer c _ _ _ _).bind fun _ =>
        (describeFields_inContainer c _ _ _ _).bind fun _ => inContainer_ok _
  refine (annotationsDirectory_inContainer c d).bind fun _ => (annotsAt_inContainer c _).bind fun _ =>
    (systemInfo_inContainer c _).bind fun _ => (internalNameOf_inContainer _).bind fun _ => above.bind fun _ =>
      (mapM_inContainer internalNameOf_inContainer _).bind fun _ => (describeAnnots_inContainer c _ _ _).bind fun _ =>
        InContainer.bind ?_ fun _ => (members _).bind fun _ => inContainer_ok _
  exact mapM_inContainer (fun member => (memberClass_inContainer c member).bind fun _ => inContainer_ok _) _

end Container

structure MethodFront where
  header : MethodHeader
  parts : List MethodPart

namespace Container

def defaultPart (c : Container) (defaults : Option Annot) (name : String) : Except Fault (List MethodPart) :=
  match defaults.bind (·.element? c name) with
  | none => pure []
  | some value => do pure [MethodPart.default (← Interest.body true (c.valueParts .everything none value))]

def parameterSets (c : Container) (directory : Option Directory) (method : UInt32) : Except Fault (List (List AnnotItem)) :=
  match directory.bind (·.parameters? method) with
  | none => pure []
  | some offset => c.annotSetList offset

def methodFront (c : Container) (directory : Option Directory) (defaults : Option Annot) (entry : MethodEntry) :
    Except Fault MethodFront := do
  let m ← c.method entry.method
  let items ← c.annotsAt (directory.bind (·.method? entry.method))
  let info ← SystemInfo.ofItems c items
  let default ← c.defaultPart defaults m.name
  let annots ← c.describeAnnots .everything true items
  let sets ← c.parameterSets directory entry.method
  let parameters ← sets.zipIdx.mapM fun (set,index) => do
    return (← c.describeAnnots .everything true set).map (MethodPart.parameter index)
  return {
    header :=
      { access := Access.ofMethod entry.accessFlags, name := m.name, desc := m.proto.descriptor, signature := info.signature,
        exceptions := info.throws }
    parts := default ++ annots.map .annot ++ parameters.flatten }

-- The body of a method for itself: nothing but the container, the definition and the entry is looked at.
def ownBody (c : Container) (settings : Settings) (d : ClassDef) (entry : MethodEntry) : Except Fault Code := do
  let m ← c.method entry.method
  let owner ← Descriptor.ofText d.descriptor
  let signature ← MethodDescriptor.ofText m.proto.descriptor
  let item ← c.codeItem entry.code
  within (.method d.descriptor m.name m.proto.descriptor)
    (Code.ofItem c ⟨owner,Access.has entry.accessFlags.toUInt16 Access.isStatic,signature⟩ item d.sourceFile settings)

-- The body that a method gets under a policy.
def givenBody (c : Container) (settings : Settings) (d : ClassDef) (entry : MethodEntry) : Except Fault Code :=
  match c.ownBody settings d entry with
  | .ok code => .ok code
  | .error f => if f.isInexpressible && settings.methodErrors = .stub then .ok (Code.stub f.message) else .error f

def bodyParts (c : Container) (settings : Settings) (d : ClassDef) (entry : MethodEntry) : Except Fault (List MethodPart) :=
  if entry.code = 0 then pure []
  else do
    let code ← c.givenBody settings d entry
    pure [MethodPart.code (some code.parts)]

structure Headed (c : Container) (entry : MethodEntry) (front : MethodFront) : Prop where
  named : ∃ m, c.method entry.method = .ok m ∧ front.header.name = m.name ∧ front.header.desc = m.proto.descriptor
  access : front.header.access = Access.ofMethod entry.accessFlags
  bodiless : ∀ part ∈ front.parts, MethodNode.code? part = none

theorem methodFront_headed {front : MethodFront} (found : c.methodFront directory defaults entry = .ok front) : Headed c entry front := by
  simp only [methodFront,bind_eq_ok,pure_eq_ok] at found
  obtain ⟨m,named,items,-,info,-,default,defaulted,annots,-,sets,-,parameters,told,rfl⟩ := found
  refine ⟨⟨m,named,rfl,rfl⟩,rfl,?_⟩
  intro part member
  simp only [List.mem_append,List.mem_map,List.mem_flatten] at member
  rcases member with (default_ | ⟨_,-,rfl⟩) | ⟨listed,among,inside⟩
  · unfold defaultPart at defaulted
    split at defaulted
    · cases defaulted
      cases default_
    · simp only [bind_eq_ok,pure_eq_ok] at defaulted
      obtain ⟨_,-,rfl⟩ := defaulted
      obtain rfl := List.mem_singleton.mp default_
      rfl
  · rfl
  · obtain ⟨⟨set,index⟩,-,described⟩ := mem_mapM told among
    simp only [bind_eq_ok,pure_eq_ok] at described
    obtain ⟨_,-,rfl⟩ := described
    obtain ⟨_,-,rfl⟩ := List.mem_map.mp inside
    rfl

theorem methodFront_inContainer (c : Container) (directory : Option Directory) (defaults : Option Annot) (entry : MethodEntry) :
    InContainer (c.methodFront directory defaults entry) := by
  have default : ∀ name, InContainer (c.defaultPart defaults name) := by
    intro name
    unfold defaultPart
    split
    · exact inContainer_ok _
    · exact (body_inContainer _ (valueParts_inContainer c _ _ _)).bind fun _ => inContainer_ok _
  have sets : InContainer (c.parameterSets directory entry.method) := by
    unfold parameterSets
    split
    · exact inContainer_ok _
    · exact annotSetList_inContainer c _
  refine (method_inContainer c _).bind fun _ => (annotsAt_inContainer c _).bind fun _ => (systemInfo_inContainer c _).bind fun _ =>
    (default _).bind fun _ => (describeAnnots_inContainer c _ _ _).bind fun _ => sets.bind fun _ =>
      InContainer.bind ?_ fun _ => inContainer_ok _
  exact mapM_inContainer (fun one => (describeAnnots_inContainer c _ _ _).bind fun _ => inContainer_ok _) _

theorem methodCode_eq (named : c.method entry.method = .ok m) :
    c.methodCode settings d entry m.name m.proto.descriptor = c.givenBody settings d entry := by
  have passed : ∀ {α : Type} {x : Except Fault α} {f : Fault}, Faults Spared x → x = .error f → f.isInexpressible = false := by
    intro α x f spares failed
    have spared := spares f failed
    unfold Fault.isInexpressible
    split
    · exact absurd ‹_› (spared _)
    · rfl
  have own : c.ownBody settings d entry = (do
      let owner ← Descriptor.ofText d.descriptor
      let signature ← MethodDescriptor.ofText m.proto.descriptor
      let item ← c.codeItem entry.code
      within (.method d.descriptor m.name m.proto.descriptor)
        (Code.ofItem c ⟨owner,Access.has entry.accessFlags.toUInt16 Access.isStatic,signature⟩ item d.sourceFile settings)) := by
    rw [ownBody,named]
    rfl
  unfold methodCode givenBody
  rw [own]
  cases owner : Descriptor.ofText d.descriptor with
  | error f => simp [bind,Except.bind,passed (ofText_inContainer _).spares owner]
  | ok owner =>
    cases signature : MethodDescriptor.ofText m.proto.descriptor with
    | error f => simp [bind,Except.bind,passed (ofText_inContainer_method _).spares signature]
    | ok signature =>
      cases item : c.codeItem entry.code with
      | error f => simp [bind,Except.bind,passed (codeItem_spares c _) item]
      | ok item => rfl

theorem methodParts_eq (named : c.method entry.method = .ok m) (items : List AnnotItem) :
    c.methodParts settings .everything d directory defaults entry m.name m.proto.descriptor items = (do
      let default ← c.defaultPart defaults m.name
      let annots ← c.describeAnnots .everything true items
      let sets ← c.parameterSets directory entry.method
      let parameters ← sets.zipIdx.mapM fun (set,index) => do
        return (← c.describeAnnots .everything true set).map (MethodPart.parameter index)
      let body ← c.bodyParts settings d entry
      return default ++ annots.map .annot ++ parameters.flatten ++ body) := by
  unfold methodParts defaultPart parameterSets bodyParts
  rw [methodCode_eq named]
  cases defaults.bind (·.element? c m.name) <;> cases directory.bind (·.parameters? entry.method) <;>
    by_cases none : entry.code = 0 <;> simp [none,Interest.everything]

theorem body_wanted (x : Except Fault α) : Interest.body true x = x >>= fun a => pure (some a) := by
  cases x <;> rfl

theorem describeMethod_eq (c : Container) (settings : Settings) (d : ClassDef) (directory : Option Directory) (defaults : Option Annot)
    (entry : MethodEntry) :
    c.describeMethod settings .everything d directory defaults entry = (do
      let front ← c.methodFront directory defaults entry
      let body ← c.bodyParts settings d entry
      return .method front.header (some (front.parts ++ body))) := by
  unfold describeMethod methodFront
  cases named : c.method entry.method with
  | error f => rfl
  | ok m =>
    have wanted : Interest.everything.methods = true := rfl
    simp only [ok_bind,bind_assoc,pure_bind,wanted,body_wanted,methodParts_eq named]

def classNode (c : Container) (settings : Settings) (d : ClassDef) : Except Fault ClassNode := do
  return ClassNode.ofDescription (← c.describe settings .everything d)

theorem classNode_parts {node : ClassNode} (done : c.classNode settings d = .ok node) :
    ∃ s parts, c.surroundings settings d = .ok s ∧ node = ClassNode.ofDescription (s.close parts) ∧
      s.methods.mapM (c.describeMethod settings .everything d s.directory s.defaults) = .ok parts := by
  simp only [classNode,describe_eq,bind_eq_ok,within_eq_ok,pure_eq_ok] at done
  obtain ⟨_,⟨s,found,parts,told,rfl⟩,rfl⟩ := done
  exact ⟨s,parts,found,rfl,told⟩

end Container

end Restack
