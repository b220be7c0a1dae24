import Mathlib
import Restack.Proofs.Lowering.Depth
import Restack.Proofs.Lowering.Drafted
import Restack.Proofs.Lowering.Run

namespace Restack

open Lowering

-- Calls. Each parameter has its place in the list of registers, and is pushed from there as a value
-- of its kind, in order.

variable {d e f : Draft} {g : Group} {p : Plan} {s t start : State} {r n next last : Nat} {type : Descriptor} {types : List Descriptor}
  {block left right : List Insn} {op : InvokeOp} {registers : List Nat} {m : MethodReference}

namespace Draft

def Awaits (d : Draft) (n : Nat) : Prop := ∃ i, n ∈ (d.cell i).sites

-- A draft that goes on with instructions. Before them only events that waited for a type may have
-- changed, and nothing else waits.
structure Adds (d : Draft) (block : List Insn) (e : Draft) : Prop where
  events : ∃ prior, prior.length = d.events.size ∧ e.events.toList = prior ++ block.map Event.insn ∧
    ∀ n, ¬d.Awaits n → prior[n]? = d.events[n]?
  sites : ∀ n, e.Awaits n → d.Awaits n

theorem adds_refl (d : Draft) : d.Adds [] d := ⟨⟨d.events.toList,by simp,by simp,by simp⟩,fun _ awaits => awaits⟩

theorem adds_push (d : Draft) (i : Insn) : d.Adds [i] (d.push (.insn i)) where
  events := ⟨d.events.toList,by simp,by simp,by simp⟩
  sites := fun _ awaits => awaits

theorem adds_resolve (done : d.resolve g type = .ok e) : d.Adds [] e := by
  rcases resolve_open_or_same done with isOpen | rfl
  · refine ⟨⟨e.events.toList,by simp [resolve_events_size isOpen done],by simp,?_⟩,?_⟩
    · intro n still
      rw [Array.getElem?_toList]
      exact resolve_elsewhere isOpen done fun member => still ⟨_,member⟩
    · rintro n ⟨i,member⟩
      rw [resolve_cell isOpen done] at member
      split at member
      · cases member
      · exact ⟨i,member⟩
  · exact adds_refl e

theorem Adds.size (adds : d.Adds block e) : e.events.size = d.events.size + block.length := by
  obtain ⟨prior,length,same,-⟩ := adds.events
  have whole := congrArg List.length same
  simpa [length] using whole

theorem Bounded.awaits (bounded : d.Bounded) (awaits : d.Awaits n) : n < d.events.size := by
  obtain ⟨i,member⟩ := awaits
  exact bounded i n member

theorem Adds.bounded (adds : d.Adds block e) (bounded : d.Bounded) : e.Bounded := by
  intro i site member
  have before := bounded.awaits (adds.sites site ⟨i,member⟩)
  rw [adds.size]
  omega

-- What is emitted waits for nothing, so what comes later leaves it as it is.
theorem Adds.trans (bounded : d.Bounded) (first : d.Adds left e) (second : e.Adds right f) : d.Adds (left ++ right) f := by
  obtain ⟨prior,length,same,still⟩ := first.events
  obtain ⟨later,whole,after,kept⟩ := second.events
  have unchanged : ∀ n, ¬d.Awaits n → later[n]? = (prior ++ left.map Event.insn)[n]? := by
    intro n quiet
    rw [kept n fun awaits => quiet (first.sites n awaits),← same,Array.getElem?_toList]
  have emitted : later.drop d.events.size = left.map Event.insn := by
    refine List.ext_getElem? fun n => ?_
    have quiet : ¬d.Awaits (d.events.size + n) := fun awaits => absurd (bounded.awaits awaits) (by omega)
    rw [List.getElem?_drop,unchanged _ quiet,← length,List.getElem?_append_right (Nat.le_add_right ..),Nat.add_sub_cancel_left]
  refine ⟨⟨later.take d.events.size,?_,?_,?_⟩,fun n awaits => first.sites n (second.sites n awaits)⟩
  · rw [List.length_take,whole,first.size]
    omega
  · rw [after,List.map_append,← List.append_assoc,← emitted,List.take_append_drop]
  · intro n quiet
    rcases Nat.lt_or_ge n d.events.size with inside | outside
    · rw [List.getElem?_take_of_lt inside,unchanged n quiet,List.getElem?_append_left (by omega),still n quiet]
    · rw [List.getElem?_eq_none ((List.length_take_le ..).trans outside),Array.getElem?_eq_none outside]

end Draft

-- The kinds that a load or a call leaves, the last one first.
def Insn.kindsAfter? (kinds : List Kind) : Insn → Option (List Kind)
  | .load kind _ => some (kind :: kinds)
  | .invoke .static call => do
    let signature ← MethodDescriptor.parse? call.desc
    let taken ← signature.args.mapM Descriptor.kind?
    let result ← signature.result.kind?
    if taken.reverse = kinds.take taken.length then some (result :: kinds.drop taken.length) else none
  | _ => none

-- The code loads a register and leaves it as a value of the type, above what is on the stack. Bits
-- that are held as another kind go through one call.
def Pushes (p : Plan) (r : Nat) (type : Descriptor) (block : List Insn) : Prop :=
  ∃ slot held want, p.slots.slot r = .ok slot ∧ type.kind? = some want ∧
    (block = [.load held slot] ∨ ∃ call, reinterpretation? held want = some call ∧ block = [.load held slot,.invoke .static call]) ∧
    ∀ below, block.foldlM Insn.kindsAfter? below = some (want :: below)

theorem reinterpretation_kinds {held want : Kind} {call : MemberRef} (known : reinterpretation? held want = some call) (below : List Kind) :
    Insn.kindsAfter? (held :: below) (.invoke .static call) = some (want :: below) := by
  cases held <;> cases want <;> cases known <;> rfl

namespace Lowering

theorem load_adds (bounded : s.draft.Bounded) (done : load p r type s = .ok t) :
    ∃ block, Pushes p r type block ∧ s.draft.Adds block t.draft := by
  simp only [load,bind_eq_ok] at done
  obtain ⟨want,wanted,slot,placed,state,-,done⟩ := done
  have kind : type.kind? = some want := kindOf_ok.mp wanted
  have plain : Pushes p r type [.load want slot] := ⟨slot,want,want,placed,kind,.inl rfl,fun _ => rfl⟩
  have opened : ∀ g, loadOpen r slot state g type want s = .ok t → ∃ block, Pushes p r type block ∧ s.draft.Adds block t.draft := by
    intro g done
    simp only [loadOpen,State.resolve,guard_eq_ok,bind_eq_ok,pure_eq_ok] at done
    obtain ⟨-,u,⟨d,resolved,rfl⟩,rfl⟩ := done
    exact ⟨_,plain,(Draft.adds_resolve resolved).trans bounded (Draft.adds_push d _)⟩
  cases state with
  | unknown => simp at done
  | open32 g | open64 g => exact opened g done
  | typed found =>
    simp only [bind_eq_ok] at done
    obtain ⟨held,-,done⟩ := done
    unfold reinterpret at done
    split at done
    · rename_i same
      subst same
      cases done
      exact ⟨_,plain,Draft.adds_push s.draft _⟩
    · split at done
      · rename_i call known
        cases done
        refine ⟨[.load held slot,.invoke .static call],⟨slot,held,want,placed,kind,.inr ⟨call,known,rfl⟩,?_⟩,?_⟩
        · intro below
          have after := reinterpretation_kinds known below
          rw [List.foldlM_cons,Insn.kindsAfter?,Option.bind_eq_bind,Option.bind_some,List.foldlM_cons,after]
          rfl
        · exact (Draft.adds_push s.draft _).trans bounded (Draft.adds_push _ _)
      · simp at done

def places (next : Nat) (types : List Descriptor) : List (Nat × Descriptor) :=
  types.zipIdx.map fun (type,j) => (next + totalSlots (types.take j),type)

theorem places_cons (next : Nat) (type : Descriptor) (types : List Descriptor) :
    places next (type :: types) = (next,type) :: places (next + type.slots) types := by
  simp only [places,List.zipIdx_cons,List.map_cons,List.take_zero,List.cons.injEq,List.zipIdx_succ,List.map_map]
  refine ⟨rfl,List.map_congr_left fun pair _ => ?_⟩
  simp [totalSlots,Nat.add_assoc]

def Binds (p : Plan) (registers : List Nat) (parameter : Nat × Descriptor) (block : List Insn) : Prop :=
  ∃ r, registers[parameter.1]? = some r ∧ Pushes p r parameter.2 block

theorem binds_kinds {parameters : List (Nat × Descriptor)} {blocks : List (List Insn)}
    (binds : List.Forall₂ (Binds p registers) parameters blocks) :
    ∃ kinds, parameters.mapM (fun parameter => parameter.2.kind?) = some kinds ∧
      ∀ below, blocks.flatten.foldlM Insn.kindsAfter? below = some (kinds.reverse ++ below) := by
  induction binds with
  | nil => exact ⟨[],rfl,fun _ => rfl⟩
  | cons here _ ih =>
    obtain ⟨r,-,slot,held,want,-,kind,-,leaves⟩ := here
    obtain ⟨kinds,known,after⟩ := ih
    refine ⟨want :: kinds,by simp [kind,known],?_⟩
    intro below
    rw [List.flatten_cons,List.foldlM_append,leaves below]
    simp [after]

theorem loadArguments_last {missing : Inexpressible} (done : loadArguments p registers missing types next s = .ok (last,t)) :
    last = next + totalSlots types := by
  induction types generalizing next s with
  | nil =>
    cases done
    rfl
  | cons type types ih =>
    unfold loadArguments at done
    split at done
    · simp at done
    · simp only [bind_eq_ok] at done
      obtain ⟨u,-,done⟩ := done
      rw [ih done]
      simp only [totalSlots,List.map_cons,List.sum_cons,Nat.add_assoc]

theorem loadArguments_adds {missing : Inexpressible} (bounded : s.draft.Bounded)
    (done : loadArguments p registers missing types next s = .ok (last,t)) :
    ∃ blocks, List.Forall₂ (Binds p registers) (places next types) blocks ∧ s.draft.Adds blocks.flatten t.draft := by
  induction types generalizing next s with
  | nil =>
    cases done
    exact ⟨[],.nil,Draft.adds_refl _⟩
  | cons type types ih =>
    unfold loadArguments at done
    split at done
    · simp at done
    · rename_i r found
      simp only [bind_eq_ok] at done
      obtain ⟨u,loaded,done⟩ := done
      obtain ⟨block,pushes,here⟩ := load_adds bounded loaded
      obtain ⟨blocks,bound,later⟩ := ih (here.bounded bounded) done
      rw [places_cons]
      exact ⟨block :: blocks,.cons ⟨r,found,pushes⟩ bound,here.trans bounded later⟩

end Lowering

-- A call on an object takes it as its first parameter.

def InvokeOp.receivers (op : InvokeOp) : Nat := if op = .static then 0 else 1

def MethodReference.parameters (m : MethodReference) (op : InvokeOp) : List (Nat × Descriptor) :=
  (if op = .static then [] else [(0,m.owner)]) ++ places op.receivers m.signature.args

namespace Lowering

theorem loadReceiver_next {missing : Inexpressible} {owner : Descriptor} (done : loadReceiver p op registers missing owner s = .ok (next,t)) :
    next = op.receivers := by
  unfold loadReceiver at done
  unfold InvokeOp.receivers
  split at done
  · cases done
    rw [if_pos ‹_›]
  · split at done
    · simp at done
    · simp only [bind_eq_ok,pure_eq_ok,Prod.mk.injEq] at done
      obtain ⟨u,-,rfl,-⟩ := done
      rw [if_neg ‹_›]

theorem loadReceiver_adds {missing : Inexpressible} {owner : Descriptor} (bounded : s.draft.Bounded)
    (done : loadReceiver p op registers missing owner s = .ok (next,t)) :
    ∃ blocks, List.Forall₂ (Binds p registers) (if op = .static then [] else [(0,owner)]) blocks ∧
      s.draft.Adds blocks.flatten t.draft := by
  unfold loadReceiver at done
  split at done
  · cases done
    rw [if_pos ‹_›]
    exact ⟨[],.nil,Draft.adds_refl _⟩
  · split at done
    · simp at done
    · rename_i r found
      simp only [bind_eq_ok,pure_eq_ok,Prod.mk.injEq] at done
      obtain ⟨u,loaded,-,rfl⟩ := done
      obtain ⟨block,pushes,here⟩ := load_adds bounded loaded
      rw [if_neg ‹_›]
      refine ⟨[block],.cons ⟨r,?_,pushes⟩ .nil,by simpa using here⟩
      rwa [← List.head?_eq_getElem?]

theorem invoke_count (done : invoke p op registers m s = .ok t) : registers.length = op.receivers + totalSlots m.signature.args := by
  simp only [invoke,bind_eq_ok,guard_eq_ok,pure_eq_ok,not_not] at done
  obtain ⟨⟨first,u⟩,received,⟨last,v⟩,loaded,all,-⟩ := done
  obtain rfl := loadReceiver_next received
  exact all.symm.trans (loadArguments_last loaded)

theorem invoke_adds (bounded : s.draft.Bounded) (done : invoke p op registers m s = .ok t) :
    ∃ blocks, List.Forall₂ (Binds p registers) (m.parameters op) blocks ∧
      s.draft.Adds (blocks.flatten ++ [.invoke op.dispatch ⟨m.owner.internalName,m.name,m.signature.text⟩]) t.draft := by
  simp only [invoke,bind_eq_ok,guard_eq_ok,pure_eq_ok] at done
  obtain ⟨⟨first,u⟩,received,⟨last,v⟩,loaded,-,rfl⟩ := done
  obtain rfl := loadReceiver_next received
  obtain ⟨receiver,boundFirst,here⟩ := loadReceiver_adds bounded received
  obtain ⟨arguments,boundRest,later⟩ := loadArguments_adds (here.bounded bounded) loaded
  refine ⟨receiver ++ arguments,List.rel_append boundFirst boundRest,?_⟩
  have called := (here.trans bounded later).trans bounded
    (Draft.adds_push v.draft (.invoke op.dispatch ⟨m.owner.internalName,m.name,m.signature.text⟩))
  rw [List.flatten_append]
  dsimp only
  split <;> exact called

end Lowering

-- The code of a call pushes its parameters in order, each from its place in the list, and then makes
-- the call. A list that is too short or too long for them is refused in any state.
theorem arguments_bound_in_order (op : InvokeOp) (registers : List Nat) (m : MethodReference) :
    (∀ {c shape item labels p start s t}, prepare c shape item labels = .ok (p,start) → Reaches p start s →
      step p (.invoke op registers m) s = .ok t →
      registers.length = op.receivers + totalSlots m.signature.args ∧
      ∃ (prior : List Event) (blocks : List (List Insn)) (kinds : List Kind),
        prior.length = s.draft.events.size ∧ (∀ n, ¬s.draft.Awaits n → prior[n]? = s.draft.events[n]?) ∧
        t.draft.events.toList =
          prior ++ (blocks.flatten ++ [Insn.invoke op.dispatch ⟨m.owner.internalName,m.name,m.signature.text⟩]).map Event.insn ∧
        List.Forall₂ (Binds p registers) (m.parameters op) blocks ∧
        (m.parameters op).mapM (fun parameter => parameter.2.kind?) = some kinds ∧
        ∀ below, blocks.flatten.foldlM Insn.kindsAfter? below = some (kinds.reverse ++ below)) ∧
    (∀ p s, registers.length ≠ op.receivers + totalSlots m.signature.args →
      ∃ fault, step p (.invoke op registers m) s = .error fault) := by
  constructor
  · intro c shape item labels p start s t prepared reached done
    obtain ⟨blocks,binds,adds⟩ := invoke_adds (reached.bounded prepared) done
    obtain ⟨prior,length,same,still⟩ := adds.events
    obtain ⟨kinds,known,after⟩ := binds_kinds binds
    exact ⟨invoke_count done,prior,blocks,kinds,length,still,same,binds,known,after⟩
  · intro p s differs
    cases called : step p (.invoke op registers m) s with
    | error fault => exact ⟨fault,rfl⟩
    | ok t => exact absurd (invoke_count called) differs

-- The bits of a long and of an int are passed on as a double and a float, and a constant as a float.
def handsOnBits : CodeItem where
  registers := 4
  ins := 3
  outs := 4
  debugInfo := 0
  units := #[0x7012,0x000e]
  tries := []
  handlers := []

def handsOnBitsShape : MethodShape := ⟨.object "a/T",true,⟨[.long,.int],.void⟩⟩

def mixedCall : MethodReference := ⟨.object "a/U","f",⟨[.double,.float,.float],.void⟩⟩

theorem arguments_bound_in_order_handsOnBits :
    ∃ labels p start s t, LabelTable.scan handsOnBits = .ok labels ∧
      prepare bare handsOnBitsShape handsOnBits labels = .ok (p,start) ∧ step p (.const 0 7) start = .ok s ∧
      step p (.invoke .static [1,2,3,0] mixedCall) s = .ok t ∧
      s.draft.events.toList = [.insn (.const (.int 7)),.insn (.store .int 3)] ∧
      t.draft.events.toList = [.insn (.const (.float 7)),.insn (.store .float 3),
        .insn (.load .long 0),.insn (.invoke .static ⟨"java/lang/Double","longBitsToDouble","(J)D"⟩),
        .insn (.load .int 2),.insn (.invoke .static ⟨"java/lang/Float","intBitsToFloat","(I)F"⟩),
        .insn (.load .float 3),.insn (.invoke .static ⟨"a/U","f","(DFF)V"⟩)] ∧
      (∃ (prior : List Event) (blocks : List (List Insn)) (kinds : List Kind),
        prior.length = 2 ∧
        t.draft.events.toList = prior ++ (blocks.flatten ++ [Insn.invoke .static ⟨"a/U","f","(DFF)V"⟩]).map Event.insn ∧
        List.Forall₂ (Binds p [1,2,3,0]) [(0,.double),(2,.float),(3,.float)] blocks ∧
        kinds = [.double,.float,.float] ∧ ∀ below, blocks.flatten.foldlM Insn.kindsAfter? below = some (kinds.reverse ++ below)) ∧
      ∃ fault, step p (.invoke .static [1,2,3] mixedCall) s = .error fault := by
  obtain ⟨labels,p,start,s,t,scanned,prepared,first,called,before,after⟩ : ∃ labels p start s t, LabelTable.scan handsOnBits = .ok labels ∧
      prepare bare handsOnBitsShape handsOnBits labels = .ok (p,start) ∧ step p (.const 0 7) start = .ok s ∧
      step p (.invoke .static [1,2,3,0] mixedCall) s = .ok t ∧
      s.draft.events.toList = [.insn (.const (.int 7)),.insn (.store .int 3)] ∧
      t.draft.events.toList = [.insn (.const (.float 7)),.insn (.store .float 3),
        .insn (.load .long 0),.insn (.invoke .static ⟨"java/lang/Double","longBitsToDouble","(J)D"⟩),
        .insn (.load .int 2),.insn (.invoke .static ⟨"java/lang/Float","intBitsToFloat","(I)F"⟩),
        .insn (.load .float 3),.insn (.invoke .static ⟨"a/U","f","(DFF)V"⟩)] := ⟨_,_,_,_,_,rfl,rfl,rfl,rfl,rfl,rfl⟩
  obtain ⟨-,prior,blocks,kinds,length,-,same,binds,known,leaves⟩ :=
    (arguments_bound_in_order .static [1,2,3,0] mixedCall).1 prepared (.step _ .start first) called
  have size : s.draft.events.size = 2 := congrArg List.length before
  refine ⟨labels,p,start,s,t,scanned,prepared,first,called,before,after,
    ⟨prior,blocks,kinds,length.trans size,same,binds,(Option.some.inj known).symm,leaves⟩,?_⟩
  exact (arguments_bound_in_order .static [1,2,3] mixedCall).2 p s (by decide)

end Restack
