import Mathlib
import Restack.Proofs.Edges.Orderly

namespace Restack

open Lowering

-- Exceptions. A handler that hears an instruction before it is placed knows no more of the
-- registers than the instruction does. A handler that is placed before, or that another range
-- keeps from hearing the instruction, is lowered without regard to it.

variable {c : Container} {shape : MethodShape} {item : CodeItem} {labels : LabelTable} {p : Plan} {start final s : State}
  {file : Option String} {settings : Settings} {code : Code} {address k m r slot : Nat} {label : Label}

theorem Translates.heard_read (way : Translates c shape item labels p start final)
    (events : code.events = final.draft.events.toList) (mine : p.slots.slot r = .ok slot)
    (branches : ∀ k label s m, BackwardBranch p start (item.body c labels) code k label s m →
      ReadAs code final.draft s.frame m r slot)
    (others : ∀ k address label s m, ExceptionEdge p start (item.body c labels) code k address label s m →
      ¬HeardInTime p address label s m → ReadAs code final.draft s.frame m r slot)
    (edge : ExceptionEdge p start (item.body c labels) code k address label s m) (heard : HeardInTime p address label s m) :
    ReadAs code final.draft s.frame m r slot := by
  intro kind reads
  obtain ⟨opcode,i,here⟩ := edge.instruction
  obtain ⟨j,above,u,v,spans,last⟩ := way.label_spans (event_of events (Code.position_event edge.place))
  have known := way.reads_kind events mine (fun k label s m _ back _ reads _ => branches k label s m back kind reads)
    (fun k address label s m other unheard reads => others k address label s m other unheard kind reads)
    reads (.label spans last)
  exact Frame.kindAt_below (way.heard_carry here heard.1 edge.reached spans last heard.2 r) known

-- In an accepted body, as far as what is read after branches back is read as it is found there,
-- handlers read registers as exceptions find them exactly if they do so for the instructions
-- that they do not hear in time. In an orderly body there are none.
theorem exception_edges_read (accepted : Code.ofItem c shape item file settings = .ok code) :
    ∃ scanned info labels p start final, Code.Built c shape item file settings code scanned info labels p start final ∧
      (∀ k, ∃ s, stateAt p start (item.body c labels) k = .ok s) ∧
      (item.Orderly → ∀ k address label s m, ExceptionEdge p start (item.body c labels) code k address label s m →
        HeardInTime p address label s m) ∧
      ∀ r slot, p.slots.slot r = .ok slot →
        (∀ k label s m, BackwardBranch p start (item.body c labels) code k label s m →
          ReadAs code final.draft s.frame m r slot) →
        ((∀ k address label s m, ExceptionEdge p start (item.body c labels) code k address label s m →
            ReadAs code final.draft s.frame m r slot) ↔
          ∀ k address label s m, ExceptionEdge p start (item.body c labels) code k address label s m →
            ¬HeardInTime p address label s m → ReadAs code final.draft s.frame m r slot) := by
  obtain ⟨scanned,info,labels,p,start,final,built⟩ := ofItem_built accepted
  have way := built.way
  obtain ⟨last,ends⟩ := way.ends
  refine ⟨scanned,info,labels,p,start,final,built,stateAt_ok ends.ran,?_,?_⟩
  · intro orderly k address label s m edge
    exact way.orderly_heard built.surveyed built.events built.blocks orderly edge
  intro r slot mine branches
  constructor
  · intro read k address label s m edge _
    exact read k address label s m edge
  · intro others k address label s m edge
    by_cases heard : HeardInTime p address label s m
    · exact way.heard_read built.events mine branches others edge heard
    · exact others k address label s m edge heard

def dividesShape : MethodShape := ⟨.object "a/T",true,⟨[.int,.float],.void⟩⟩

-- A division while v0 is an int, with a handler below it that compares v0 with zero.
def handlerBelow : CodeItem where
  registers := 4
  ins := 2
  outs := 0
  debugInfo := 0
  units := #[0x2001,0x0193,0x0202,0x000e,0x010d,0x0038,0x0002,0x000e]
  tries := [⟨1,2,1⟩]
  handlers := [(1,⟨[],some 4⟩)]

theorem handlerBelow_orderly : handlerBelow.Orderly := by
  constructor
  · intro one first two second
    simp only [handlerBelow,List.mem_singleton] at first second
    rw [first,second]
    exact fun _ _ _ => rfl
  · intro item member handler found
    simp only [handlerBelow,List.mem_singleton] at member
    subst member
    cases found
    decide

theorem exception_edges_read_handlerBelow :
    ∃ code scanned info labels p start final,
      Code.Built bare dividesShape handlerBelow none {} code scanned info labels p start final ∧ p.slots.slot 0 = .ok 2 ∧
      (∀ k label s m, BackwardBranch p start (handlerBelow.body bare labels) code k label s m →
        ReadAs code final.draft s.frame m 0 2) ∧
      (∃ s, ExceptionEdge p start (handlerBelow.body bare labels) code 3 1 ⟨4⟩ s 10 ∧ code.Reads 2 .int 10) ∧
      ∀ k address label s m, ExceptionEdge p start (handlerBelow.body bare labels) code k address label s m →
        HeardInTime p address label s m ∧ ReadAs code final.draft s.frame m 0 2 := by
  obtain ⟨code,labels,p,start,final,s,accepted,scan,prepared,finished,mine,edge,reads,ahead⟩ :
      ∃ code labels p start final s, Code.ofItem bare dividesShape handlerBelow none {} = .ok code ∧
        LabelTable.scan handlerBelow = .ok labels ∧ prepare bare dividesShape handlerBelow labels = .ok (p,start) ∧
        finish p start (DecodedBody.ofCode bare handlerBelow.units labels) = .ok final ∧ p.slots.slot 0 = .ok 2 ∧
        ExceptionEdge p start (handlerBelow.body bare labels) code 3 1 ⟨4⟩ s 10 ∧ code.Reads 2 .int 10 ∧
        backwardAll p start (handlerBelow.body bare labels) code (fun _ => false) = true := by
    have heard : (⟨4⟩ : Label) ∈ [(⟨4⟩ : Label)] := List.mem_singleton_self _
    refine ⟨_,_,_,_,_,_,rfl,rfl,rfl,rfl,rfl,⟨⟨_,_,rfl⟩,rfl,rfl,.inr heard⟩,?_,rfl⟩
    exact .later rfl rfl (.inl (.falls rfl rfl (by decide))) (.later rfl rfl (.inl (.falls rfl rfl (by decide))) (.here rfl))
  -- The run that the theorem speaks of is this one, and it has no branch back.
  obtain ⟨_,info,_,_,_,_,built,-,heard,told⟩ := exception_edges_read accepted
  cases scan.symm.trans built.scan
  cases built.debug
  cases prepared.symm.trans built.way.prepared
  cases finished.symm.trans built.way.finished
  have forward : ∀ k label s m, BackwardBranch p start (handlerBelow.body bare labels) code k label s m →
      ReadAs code final.draft s.frame m 0 2 := by
    intro k label s m back
    cases back.passes ahead
  refine ⟨code,_,none,labels,p,start,final,built,mine,forward,⟨s,edge,reads⟩,?_⟩
  intro k address label s m edge
  have every := heard handlerBelow_orderly
  refine ⟨every k address label s m edge,(told 0 2 mine forward).mpr ?_ k address label s m edge⟩
  intro k address label s m edge unheard
  exact absurd (every k address label s m edge) unheard

-- The inner range keeps the handler of the outer one from hearing the second division, before
-- which v0 becomes a float. That handler reads v0 as the int of the first division.
def overlapping : CodeItem where
  registers := 4
  ins := 2
  outs := 0
  debugInfo := 0
  units := #[0x2001,0x0193,0x0202,0x3001,0x0193,0x0202,0x000e,0x010d,0x0038,0x0002,0x000e,0x010d,0x000e]
  tries := [⟨1,5,1⟩,⟨4,2,3⟩]
  handlers := [(1,⟨[],some 7⟩),(3,⟨[],some 11⟩)]

-- The same with one division, whose handler stands above it and is lowered while v0 is an int.
def handlerAbove : CodeItem where
  registers := 4
  ins := 2
  outs := 0
  debugInfo := 0
  units := #[0x2001,0x0528,0x010d,0x0038,0x0002,0x000e,0x3001,0x0193,0x0202,0x000e]
  tries := [⟨7,2,1⟩]
  handlers := [(1,⟨[],some 2⟩)]

-- An accepted body, an instruction between the labels of an entry, and a register that the
-- handler reads as an int while the frame at the instruction has it as a float.
def Misread (item : CodeItem) (k address : Nat) (label : Label) (m r : Nat) : Prop :=
  ∃ code labels p start final s slot, Code.ofItem bare dividesShape item none {} = .ok code ∧
    LabelTable.scan item = .ok labels ∧ prepare bare dividesShape item labels = .ok (p,start) ∧
    finish p start (DecodedBody.ofCode bare item.units labels) = .ok final ∧ code.events = final.draft.events.toList ∧
    ExceptionEdge p start (item.body bare labels) code k address label s m ∧ code.InRange label s ∧
    p.slots.slot r = .ok slot ∧ code.Reads slot .int m ∧ s.frame.kindAt? final.draft r = some .float

theorem handlers_misread : Misread overlapping 6 4 ⟨4⟩ 17 0 ∧ Misread handlerAbove 11 7 ⟨5⟩ 4 0 := by
  constructor
  · have entry : (⟨⟨2⟩,⟨3⟩,⟨4⟩,none⟩ : TryBlock) ∈ [(⟨⟨2⟩,⟨3⟩,⟨4⟩,none⟩ : TryBlock),⟨⟨5⟩,⟨3⟩,⟨6⟩,none⟩] := List.mem_cons_self
    refine ⟨_,_,_,_,_,_,_,rfl,rfl,rfl,rfl,rfl,⟨⟨_,_,rfl⟩,rfl,rfl,.inl ⟨_,entry,_,_,rfl,rfl,rfl,by decide,by decide⟩⟩,
      ⟨_,entry,_,_,rfl,rfl,rfl,by decide,by decide⟩,rfl,?_,rfl⟩
    exact .later rfl rfl (.inl (.falls rfl rfl (by decide))) (.later rfl rfl (.inl (.falls rfl rfl (by decide))) (.here rfl))
  · have entry : (⟨⟨3⟩,⟨4⟩,⟨5⟩,none⟩ : TryBlock) ∈ [(⟨⟨3⟩,⟨4⟩,⟨5⟩,none⟩ : TryBlock)] := List.mem_cons_self
    refine ⟨_,_,_,_,_,_,_,rfl,rfl,rfl,rfl,rfl,⟨⟨_,_,rfl⟩,rfl,rfl,.inl ⟨_,entry,_,_,rfl,rfl,rfl,by decide,by decide⟩⟩,
      ⟨_,entry,_,_,rfl,rfl,rfl,by decide,by decide⟩,rfl,?_,rfl⟩
    exact .later rfl rfl (.inl (.falls rfl rfl (by decide))) (.later rfl rfl (.inl (.falls rfl rfl (by decide))) (.here rfl))

end Restack
