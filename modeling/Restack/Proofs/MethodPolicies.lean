import Mathlib
import Restack.Proofs.Class.Layout
import Restack.Proofs.Class.Replay

namespace Restack

-- A policy on methods without stack code touches these methods only. What else a class holds, the bodies of the
-- other methods and the faults of the container are the same under both policies. But a body whose numbers leave the
-- range of words has neither code nor a fault that a stub could tell, and takes the class with it.

variable {c : Container} {settings : Settings} {d : ClassDef} {directory : Option Directory} {defaults : Option Annot}
  {entry : MethodEntry} {part : ClassPart} {fault : Fault}

namespace Container

def methodsOf (c : Container) (d : ClassDef) : List MethodEntry :=
  match c.classData d with
  | .ok (some data) => data.directMethods ++ data.virtualMethods
  | _ => []

def HasOwnBody (c : Container) (settings : Settings) (d : ClassDef) (entry : MethodEntry) : Prop :=
  entry.code = 0 ∨ ∃ code, c.ownBody settings d entry = .ok code

def CarriesBody (c : Container) (settings : Settings) (d : ClassDef) (entry : MethodEntry) (m : MethodNode) : Prop :=
  (entry.code = 0 ∧ m.code = none) ∨
  (entry.code ≠ 0 ∧ ∃ code, c.ownBody settings d entry = .ok code ∧ m.code = some code) ∨
  (entry.code ≠ 0 ∧ ∃ f, c.ownBody settings d entry = .error f ∧ f.isInexpressible = true ∧ m.code = some { events := [
    .insn (.new "java/lang/RuntimeException"),
    .insn .dup,
    .insn (.const (.string f.message)),
    .insn (.invoke .special ⟨"java/lang/RuntimeException","<init>","(Ljava/lang/String;)V"⟩),
    .insn .throwTop] })

-- The methods before this one are described, and so is what stands before its body. Its body overflows.
structure StoppedBy (c : Container) (settings : Settings) (d : ClassDef) (entry : MethodEntry) (f : Fault) : Prop where
  reached : ∃ s before after front, c.surroundings settings d = .ok s ∧ c.methodsOf d = before ++ entry :: after ∧
    (∀ earlier ∈ before, ∃ part,
      c.describeMethod { settings with methodErrors := .stub } .everything d s.directory s.defaults earlier = .ok part) ∧
    c.methodFront s.directory s.defaults entry = .ok front
  present : entry.code ≠ 0
  own : c.ownBody settings d entry = .error f
  overflow : f.cause = .overflow

-- One method. A body for itself is the same under every policy.

theorem bodyParts_ok {policy : MethodPolicy} {parts : List MethodPart}
    (done : c.bodyParts { settings with methodErrors := policy } d entry = .ok parts) :
    (entry.code = 0 ∧ parts = []) ∨
    (entry.code ≠ 0 ∧ ∃ code, c.ownBody settings d entry = .ok code ∧ parts = [.code (some code.parts)]) ∨
    (entry.code ≠ 0 ∧ policy = .stub ∧ ∃ f, c.ownBody settings d entry = .error f ∧ f.isInexpressible = true ∧
      parts = [.code (some (Code.stub f.message).parts)]) := by
  have same : c.ownBody { settings with methodErrors := policy } d entry = c.ownBody settings d entry := rfl
  unfold bodyParts at done
  split at done
  · rename_i none
    cases done
    exact .inl ⟨none,rfl⟩
  · rename_i present
    simp only [bind_eq_ok,pure_eq_ok] at done
    obtain ⟨code,given,rfl⟩ := done
    rw [givenBody,same] at given
    cases own : c.ownBody settings d entry with
    | ok body =>
      rw [own] at given
      cases given
      exact .inr (.inl ⟨present,code,rfl,rfl⟩)
    | error f =>
      simp only [own] at given
      split at given
      · rename_i answered
        simp only [Bool.and_eq_true,decide_eq_true_eq] at answered
        cases given
        exact .inr (.inr ⟨present,answered.2,f,rfl,answered.1,rfl⟩)
      · cases given

theorem bodyParts_error {policy : MethodPolicy} (failed : c.bodyParts { settings with methodErrors := policy } d entry = .error fault) :
    entry.code ≠ 0 ∧ c.ownBody settings d entry = .error fault ∧ (policy = .stub → fault.isInexpressible = false) := by
  have same : c.ownBody { settings with methodErrors := policy } d entry = c.ownBody settings d entry := rfl
  unfold bodyParts at failed
  split at failed
  · cases failed
  · rename_i present
    rw [givenBody,same] at failed
    cases own : c.ownBody settings d entry with
    | ok body =>
      rw [own] at failed
      cases failed
    | error f =>
      simp only [own] at failed
      split at failed
      · cases failed
      · rename_i unanswered
        cases failed
        refine ⟨present,rfl,?_⟩
        rintro rfl
        simpa using unanswered

theorem bodyParts_own (own : c.HasOwnBody settings d entry) (one two : MethodPolicy) :
    c.bodyParts { settings with methodErrors := one } d entry = c.bodyParts { settings with methodErrors := two } d entry := by
  have same : ∀ policy, c.ownBody { settings with methodErrors := policy } d entry = c.ownBody settings d entry := fun _ => rfl
  unfold bodyParts givenBody
  rcases own with none | ⟨code,here⟩
  · rw [if_pos none,if_pos none]
  · simp only [same,here]

theorem ownBody_replayed {code : Code} (own : c.ownBody settings d entry = .ok code) : Code.ofParts code.parts = code := by
  simp only [ownBody,bind_eq_ok,within_eq_ok] at own
  obtain ⟨m,-,owner,-,signature,-,item,-,lowered⟩ := own
  exact Code.ofItem_replayed lowered

theorem describeMethod_strict (done : c.describeMethod { settings with methodErrors := .fail } .everything d directory defaults entry = .ok part) :
    c.HasOwnBody settings d entry := by
  rw [describeMethod_eq] at done
  simp only [bind_eq_ok] at done
  obtain ⟨front,-,parts,body,-⟩ := done
  rcases bodyParts_ok body with ⟨none,-⟩ | ⟨-,code,own,-⟩ | ⟨-,wrong,-⟩
  · exact .inl none
  · exact .inr ⟨code,own⟩
  · cases wrong

theorem describeMethod_lenient
    (done : c.describeMethod { settings with methodErrors := .fail } .everything d directory defaults entry = .ok part) :
    c.describeMethod { settings with methodErrors := .stub } .everything d directory defaults entry = .ok part := by
  have own := describeMethod_strict done
  rw [describeMethod_eq] at done ⊢
  rw [bodyParts_own own .stub .fail]
  exact done

theorem describeMethod_carries
    (done : c.describeMethod { settings with methodErrors := .stub } .everything d directory defaults entry = .ok part) :
    ∃ m, ClassNode.method? part = some m ∧ c.CarriesBody settings d entry m := by
  rw [describeMethod_eq] at done
  simp only [bind_eq_ok,pure_eq_ok] at done
  obtain ⟨front,headed,parts,body,rfl⟩ := done
  refine ⟨_,rfl,?_⟩
  have bodiless : front.parts.filterMap MethodNode.code? = [] :=
    List.filterMap_eq_nil_iff.mpr (methodFront_headed headed).bodiless
  have last : (MethodNode.ofDescription front.header (some (front.parts ++ parts))).code = (parts.filterMap MethodNode.code?).getLast? := by
    simp [MethodNode.ofDescription,List.filterMap_append,bodiless]
  unfold CarriesBody
  rw [last]
  rcases bodyParts_ok body with ⟨none,rfl⟩ | ⟨present,code,own,rfl⟩ | ⟨present,-,f,own,answered,rfl⟩
  · exact .inl ⟨none,rfl⟩
  · refine .inr (.inl ⟨present,code,own,?_⟩)
    exact congrArg some (ownBody_replayed own)
  · exact .inr (.inr ⟨present,f,own,answered,rfl⟩)

theorem describeMethod_fails
    (lenient : c.describeMethod { settings with methodErrors := .stub } .everything d directory defaults entry = .ok part)
    (failed : c.describeMethod { settings with methodErrors := .fail } .everything d directory defaults entry = .error fault) :
    entry.code ≠ 0 ∧ c.ownBody settings d entry = .error fault ∧ fault.isInexpressible = true := by
  rw [describeMethod_eq] at lenient failed
  simp only [bind_eq_ok] at lenient
  obtain ⟨front,headed,parts,given,-⟩ := lenient
  cases body : c.bodyParts { settings with methodErrors := .fail } d entry with
  | ok parts =>
    rw [headed,body] at failed
    cases failed
  | error f =>
    rw [headed,body] at failed
    cases failed
    obtain ⟨present,own,-⟩ := bodyParts_error body
    rcases bodyParts_ok given with ⟨none,-⟩ | ⟨-,code,other,-⟩ | ⟨-,-,f,same,answered,-⟩
    · exact absurd none present
    · rw [own] at other
      cases other
    · rw [own] at same
      cases same
      exact ⟨present,own,answered⟩

theorem describeMethod_error
    (failed : c.describeMethod { settings with methodErrors := .stub } .everything d directory defaults entry = .error fault) :
    (∃ cause, fault.cause = .malformed cause) ∨
      ((∃ front, c.methodFront directory defaults entry = .ok front) ∧ entry.code ≠ 0 ∧ c.ownBody settings d entry = .error fault ∧
        fault.cause = .overflow) := by
  rw [describeMethod_eq] at failed
  cases headed : c.methodFront directory defaults entry with
  | error f =>
    rw [headed] at failed
    cases failed
    exact .inl (methodFront_inContainer c directory defaults entry fault headed)
  | ok front =>
    cases body : c.bodyParts { settings with methodErrors := .stub } d entry with
    | ok parts =>
      simp only [headed,body] at failed
      cases failed
    | error f =>
      simp only [headed,body] at failed
      cases failed
      obtain ⟨present,own,spared⟩ := bodyParts_error body
      have spared := spared rfl
      cases cause : fault.cause with
      | malformed why => exact .inl ⟨why,rfl⟩
      | inexpressible why => simp [Fault.isInexpressible,cause] at spared
      | overflow => exact .inr ⟨⟨front,rfl⟩,present,own,rfl⟩

theorem describeMethod_overflow {front : MethodFront} (headed : c.methodFront directory defaults entry = .ok front) (present : entry.code ≠ 0)
    (own : c.ownBody settings d entry = .error fault) (overflow : fault.cause = .overflow) :
    c.describeMethod { settings with methodErrors := .stub } .everything d directory defaults entry = .error fault := by
  have same : c.ownBody { settings with methodErrors := .stub } d entry = c.ownBody settings d entry := rfl
  have plain : fault.isInexpressible = false := by simp [Fault.isInexpressible,overflow]
  rw [describeMethod_eq,headed,ok_bind,bodyParts,if_neg present,givenBody,same,own]
  simp only [plain,Bool.false_and]
  rfl

theorem classNode_error (failed : c.surroundings settings d = .error fault) (policy : MethodPolicy) :
    c.classNode { settings with methodErrors := policy } d = .error (fault.within (.definition d.descriptor)) := by
  have same : c.surroundings { settings with methodErrors := policy } d = c.surroundings settings d := rfl
  rw [classNode,describe_eq,same,failed]
  rfl

theorem Framed.methods {s : Surroundings} (framed : Framed c d s) : s.methods = c.methodsOf d := by
  rcases framed.listed with ⟨none,-,methods⟩ | ⟨data,values,found,-,-,methods⟩
  · rw [methods,methodsOf,none]
  · rw [methods,methodsOf,found]

theorem classNode_ok {s : Surroundings} (found : c.surroundings settings d = .ok s) (policy : MethodPolicy) :
    c.classNode { settings with methodErrors := policy } d = within (.definition d.descriptor) (do
      let parts ← (c.methodsOf d).mapM (c.describeMethod { settings with methodErrors := policy } .everything d s.directory s.defaults)
      return ClassNode.ofDescription (s.close parts)) := by
  have same : c.surroundings { settings with methodErrors := policy } d = c.surroundings settings d := rfl
  rw [classNode,describe_eq,same,found,ok_bind,(surroundings_framed found).methods]
  cases (c.methodsOf d).mapM (c.describeMethod { settings with methodErrors := policy } .everything d s.directory s.defaults) <;> rfl

theorem classNode_methods {policy : MethodPolicy} {node : ClassNode}
    (done : c.classNode { settings with methodErrors := policy } d = .ok node) :
    ∃ s parts, c.surroundings settings d = .ok s ∧ node = ClassNode.ofDescription (s.close parts) ∧
      (c.methodsOf d).mapM (c.describeMethod { settings with methodErrors := policy } .everything d s.directory s.defaults) = .ok parts := by
  obtain ⟨s,parts,found,same,told⟩ := classNode_parts done
  exact ⟨s,parts,found,same,(surroundings_framed found).methods ▸ told⟩

theorem classNode_lenient {node : ClassNode} (done : c.classNode { settings with methodErrors := .fail } d = .ok node) :
    c.classNode { settings with methodErrors := .stub } d = .ok node := by
  obtain ⟨s,parts,found,rfl,told⟩ := classNode_methods done
  rw [classNode_ok found,mapM_mono (fun _ _ done => describeMethod_lenient done) told]
  rfl

theorem classNode_stub_error (failed : c.classNode { settings with methodErrors := .stub } d = .error fault) :
    (∃ cause, fault.cause = .malformed cause) ∨ ∃ entry f, c.StoppedBy settings d entry f ∧ fault = f.within (.definition d.descriptor) := by
  cases found : c.surroundings settings d with
  | error f =>
    rw [classNode_error found] at failed
    cases failed
    exact .inl (surroundings_inContainer c settings d f found)
  | ok s =>
    rw [classNode_ok found] at failed
    cases told : (c.methodsOf d).mapM (c.describeMethod { settings with methodErrors := .stub } .everything d s.directory s.defaults) with
    | ok parts =>
      rw [told] at failed
      cases failed
    | error f =>
      rw [told] at failed
      cases failed
      obtain ⟨before,entry,after,split,fine,here⟩ := mapM_error told
      rcases describeMethod_error here with malformed | ⟨⟨front,headed⟩,present,own,overflow⟩
      · exact .inl malformed
      · exact .inr ⟨entry,f,⟨⟨s,before,after,front,found,split,fine,headed⟩,present,own,overflow⟩,rfl⟩

theorem StoppedBy.classNode {f : Fault} (stopped : c.StoppedBy settings d entry f) :
    c.classNode { settings with methodErrors := .stub } d = .error (f.within (.definition d.descriptor)) := by
  obtain ⟨s,before,after,front,found,split,fine,headed⟩ := stopped.reached
  have here := describeMethod_overflow headed stopped.present stopped.own stopped.overflow
  rw [classNode_ok found,split,mapM_fails fine here]
  rfl

theorem classNode_strict {node : ClassNode} (done : c.classNode { settings with methodErrors := .stub } d = .ok node) :
    ((∀ entry ∈ c.methodsOf d, c.HasOwnBody settings d entry) ∧ c.classNode { settings with methodErrors := .fail } d = .ok node) ∨
    ∃ before entry after f, c.methodsOf d = before ++ entry :: after ∧ (∀ earlier ∈ before, c.HasOwnBody settings d earlier) ∧
      entry.code ≠ 0 ∧ c.ownBody settings d entry = .error f ∧ f.isInexpressible = true ∧
      c.classNode { settings with methodErrors := .fail } d = .error (f.within (.definition d.descriptor)) := by
  obtain ⟨s,parts,found,rfl,stubbed⟩ := classNode_methods done
  rw [classNode_ok found]
  cases told : (c.methodsOf d).mapM (c.describeMethod { settings with methodErrors := .fail } .everything d s.directory s.defaults) with
  | ok strict =>
    refine .inl ⟨?_,?_⟩
    · intro entry member
      obtain ⟨part,-,here⟩ := mapM_mem told member
      exact describeMethod_strict here
    · have again := mapM_mono (fun _ _ done => describeMethod_lenient done) told
      rw [stubbed] at again
      cases again
      rfl
  | error f =>
    obtain ⟨before,entry,after,split,fine,here⟩ := mapM_error told
    obtain ⟨part,-,lenient⟩ := mapM_mem stubbed (show entry ∈ c.methodsOf d by simp [split])
    obtain ⟨present,own,answered⟩ := describeMethod_fails lenient here
    refine .inr ⟨before,entry,after,f,split,?_,present,own,answered,rfl⟩
    intro earlier member
    obtain ⟨part,done⟩ := fine earlier member
    exact describeMethod_strict done

theorem classNode_carries {node : ClassNode} (done : c.classNode { settings with methodErrors := .stub } d = .ok node) :
    List.Forall₂ (c.CarriesBody settings d) (c.methodsOf d) node.methods := by
  obtain ⟨s,parts,found,rfl,told⟩ := classNode_methods done
  rw [(surroundings_framed found).methodNodes]
  exact forall₂_filterMap (fun _ _ done => describeMethod_carries done) (mapM_eq_ok.mp told)

end Container

-- The policies differ in nothing but methods that have a fault about their code. A stub in place of such a body keeps
-- the class, except where the first fault that no stub answers is an overflow.
theorem methods_isolated_up_to_overflow (c : Container) (settings : Settings) (d : ClassDef) :
    (∀ node, c.classNode { settings with methodErrors := .fail } d = .ok node →
      c.classNode { settings with methodErrors := .stub } d = .ok node) ∧
    (∀ fault, c.classNode { settings with methodErrors := .stub } d = .error fault →
      (∃ cause, fault.cause = .malformed cause) ∨ ∃ entry f, c.StoppedBy settings d entry f ∧ fault = f.within (.definition d.descriptor)) ∧
    (∀ entry f, c.StoppedBy settings d entry f →
      c.classNode { settings with methodErrors := .stub } d = .error (f.within (.definition d.descriptor))) ∧
    ∀ node, c.classNode { settings with methodErrors := .stub } d = .ok node →
      List.Forall₂ (c.CarriesBody settings d) (c.methodsOf d) node.methods ∧
      (((∀ entry ∈ c.methodsOf d, c.HasOwnBody settings d entry) ∧ c.classNode { settings with methodErrors := .fail } d = .ok node) ∨
        ∃ before entry after f, c.methodsOf d = before ++ entry :: after ∧ (∀ earlier ∈ before, c.HasOwnBody settings d earlier) ∧
          entry.code ≠ 0 ∧ c.ownBody settings d entry = .error f ∧ f.isInexpressible = true ∧
          c.classNode { settings with methodErrors := .fail } d = .error (f.within (.definition d.descriptor))) :=
  ⟨fun _ done => Container.classNode_lenient done,fun _ failed => Container.classNode_stub_error failed,
    fun _ _ stopped => stopped.classNode,fun _ done => ⟨Container.classNode_carries done,Container.classNode_strict done⟩⟩

-- Two methods without code of their own but the last unit. The second has a debug program.
def twoMethods (registers last debugInfo : UInt8) : Container := { Lowering.bare with
  strings := #["LT;","V","f","g"]
  types := #[0,1]
  protos := #[⟨1,1,0⟩]
  methods := #[⟨0,0,2⟩,⟨0,0,3⟩]
  bytes := #[
    0, 0,0,2,0, 0,8,12, 1,8,30, 0,
    0,0, 0,0, 0,0, 0,0, 0,0,0,0, 1,0,0,0, 0x0e,0,
    registers,0, 0,0, 0,0, 0,0, debugInfo,0,0,0, 1,0,0,0, last,0,
    0x0a,0x01,0x80,0x80,0x80,0x80,0x08,0x00] }

def twoMethodsClass : ClassDef := ⟨"LT;",1,none,[],none,⟨0,1,noIndex,0,noIndex,0,1,0⟩⟩

-- The second method returns a value, and its type has none.
theorem methods_isolated_up_to_overflow_twoMethods :
    ∃ node, (twoMethods 1 0x0f 0).classNode { methodErrors := .stub } twoMethodsClass = .ok node ∧
      List.Forall₂ ((twoMethods 1 0x0f 0).CarriesBody {} twoMethodsClass) [⟨0,8,12⟩,⟨1,8,30⟩] node.methods ∧
      ∃ f, (twoMethods 1 0x0f 0).ownBody {} twoMethodsClass ⟨1,8,30⟩ = .error f ∧
        (twoMethods 1 0x0f 0).classNode { methodErrors := .fail } twoMethodsClass = .error (f.within (.definition "LT;")) := by
  have entries : (twoMethods 1 0x0f 0).methodsOf twoMethodsClass = [⟨0,8,12⟩,⟨1,8,30⟩] := by decide +kernel
  have first : ((twoMethods 1 0x0f 0).ownBody {} twoMethodsClass ⟨0,8,12⟩).toBool = true := by decide +kernel
  have strict : ((twoMethods 1 0x0f 0).classNode { methodErrors := .fail } twoMethodsClass).toBool = false := by decide +kernel
  have lenient : ((twoMethods 1 0x0f 0).classNode { methodErrors := .stub } twoMethodsClass).toBool = true := by decide +kernel
  cases done : (twoMethods 1 0x0f 0).classNode { methodErrors := .stub } twoMethodsClass with
  | error f => simp [done,Except.toBool] at lenient
  | ok node =>
    obtain ⟨bodies,outcome⟩ := (methods_isolated_up_to_overflow (twoMethods 1 0x0f 0) {} twoMethodsClass).2.2.2 node done
    rw [entries] at bodies
    refine ⟨node,rfl,bodies,?_⟩
    rcases outcome with ⟨-,accepted⟩ | ⟨before,entry,after,f,split,-,-,own,-,failed⟩
    · simp [accepted,Except.toBool] at strict
    · have member : entry ∈ (twoMethods 1 0x0f 0).methodsOf twoMethodsClass := by simp [split]
      rw [entries] at member
      rcases List.mem_cons.mp member with rfl | last
      · simp [own,Except.toBool] at first
      · obtain rfl := List.mem_singleton.mp last
        exact ⟨f,own,failed⟩

-- A name in its debug program has the number of the least signed word. The first method has code, and is lost with it.
theorem overflow_stops_class :
    (∃ code, (twoMethods 0 0x0e 48).ownBody {} twoMethodsClass ⟨0,8,12⟩ = .ok code) ∧
    (twoMethods 0 0x0e 48).classNode { methodErrors := .stub } twoMethodsClass =
      .error ⟨.overflow,[.debugInfo 48,.method "LT;" "g" "()V",.definition "LT;"]⟩ :=
  ⟨⟨_,rfl⟩,rfl⟩

end Restack
