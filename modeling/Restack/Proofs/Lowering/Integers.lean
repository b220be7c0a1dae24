import Mathlib
import Restack.Proofs.Lowering.Trail

namespace Restack

open Draft (Settles)

-- Bodies that compute with ints and longs only. A placeholder has the form for these
-- types from the start, so what lowering emits stays as it is.

def Descriptor.isIntegral (type : Descriptor) : Bool :=
  match type.kind? with
  | none | some .int | some .long => true
  | _ => false

def Instruction.isIntegral : Instruction → Bool
  | .nop | .returnVoid | .const .. | .constWide .. | .goto _ | .packedSwitch .. | .sparseSwitch .. | .test ..
  | .testZero .. | .binaryLiteral .. | .reverseSubtract .. => true
  | .move kind .. | .moveResult kind _ | .returnValue kind _ => kind ≠ .object
  | .compare op .. => op = .long
  | .unary op .. => op.operand.isIntegral && op.result.isIntegral
  | .binary op .. => op.type.isIntegral
  | .invoke op _ m => op = .static && m.signature.args.all Descriptor.isIntegral && m.signature.result.isIntegral
  | _ => false

def BodyItem.isIntegral : BodyItem → Bool
  | .label _ _ => true
  | .instruction _ _ i => i.isIntegral

namespace Lowering

variable {p : Plan} {s t u m : State} {d e : Draft} {type : Descriptor} {kind : Kind} {i j : Insn} {block : List Insn}
  {instruction : Instruction} {part : Part} {parts : List Part} {item : BodyItem}

def Integral (type : Descriptor) : Prop := type.isIntegral = true

theorem integral_kind (integral : Integral type) (known : type.kind? = some kind) : kind = .int ∨ kind = .long := by
  unfold Integral Descriptor.isIntegral at integral
  rw [known] at integral
  cases kind <;> simp at integral ⊢

theorem integral_plain (integral : Integral type) : type.isReference = false := by
  cases type with
  | array element => cases integral
  | object name => cases integral
  | _ => rfl

theorem integral_closed : Closed Integral := by
  refine ⟨rfl,?_⟩
  intro type integral reference
  rw [integral_plain integral] at reference
  cases reference

theorem integral_item (result : Integral p.shape.signature.result) (integral : item.isIntegral = true) :
    ItemTyped Integral p item := by
  cases item with
  | label address label => trivial
  | instruction address opcode i =>
    intro type given
    cases i with
    | move kind dest source =>
      simp only [BodyItem.isIntegral,Instruction.isIntegral,decide_eq_true_eq] at integral
      simp [givenTypes,integral] at given
    | returnValue kind source =>
      obtain rfl := List.mem_singleton.mp given
      exact result
    | compare op dest left right =>
      simp only [BodyItem.isIntegral,Instruction.isIntegral,decide_eq_true_eq] at integral
      subst integral
      obtain rfl := List.mem_singleton.mp given
      rfl
    | unary op dest source =>
      simp only [BodyItem.isIntegral,Instruction.isIntegral,Bool.and_eq_true] at integral
      rcases List.mem_pair.mp given with rfl | rfl
      · exact integral.1
      · exact integral.2
    | binary op dest left right =>
      obtain rfl := List.mem_singleton.mp given
      exact integral
    | invoke op args method =>
      simp only [BodyItem.isIntegral,Instruction.isIntegral,Bool.and_eq_true,decide_eq_true_eq,List.all_eq_true] at integral
      obtain ⟨⟨rfl,args⟩,returned⟩ := integral
      simp only [givenTypes,if_true,List.nil_append,List.mem_append] at given
      rcases given with arg | last
      · exact args type arg
      · split at last
        · cases last
        · obtain rfl := List.mem_singleton.mp last
          exact returned
    | _ => first | exact absurd given List.not_mem_nil | exact absurd integral Bool.false_ne_true

-- A draft whose instructions have the form in which placeholders are emitted.
def Plain (d : Draft) : Prop := d.outline = d.events.toList

theorem kind_of_width {held : Kind} (whole : kind = .int ∨ kind = .long) (plain : held.untyped = held)
    (width : held.isWide = kind.isWide) : kind = held := by
  rcases whole with rfl | rfl <;> cases held <;> first | rfl | exact absurd width (by decide) | exact absurd plain (by decide)

theorem retype_integral (plain : i.untyped = i) (integral : Integral type) (done : i.retype type = .ok j) : j = i := by
  unfold Insn.retype at done
  split at done
  · simp at done
  · rename_i kind known
    have whole := integral_kind integral known
    split at done
    · obtain ⟨width,rfl⟩ := Insn.retypeSlot_eq done
      rw [kind_of_width whole (by simpa [Insn.untyped] using plain) width]
    · obtain ⟨width,rfl⟩ := Insn.retypeSlot_eq done
      rw [kind_of_width whole (by simpa [Insn.untyped] using plain) width]
    · rename_i value
      split at done
      · rename_i other retyped
        cases done
        rcases whole with rfl | rfl <;> cases value <;> cases retyped <;> rfl
      · simp at done
    · rename_i condition target
      split at done
      · rename_i other retyped
        cases done
        rcases whole with rfl | rfl
        · cases retyped
          rfl
        · cases condition <;> cases retyped
      · simp at done
    · simp at done

theorem plain_push (plain : Plain d) (event : Event) (same : event.untyped = event) : Plain (d.push event) := by
  unfold Plain at plain ⊢
  rw [Draft.outline_push,plain,same]
  simp

theorem retypeSite_integral {site : Nat} (plain : Plain d) (integral : Integral type)
    (done : Draft.retypeSite type d site = .ok e) : e.events = d.events := by
  obtain ⟨i,j,found,retyped,written⟩ := Draft.retypeSite_events done
  have form : i.untyped = i := by
    have event : d.events.toList[site]? = some (.insn i) := by simpa using found
    have same : d.outline[site]? = some (.insn i.untyped) := by
      simp [Draft.outline,event,Event.untyped]
    rw [plain,event] at same
    exact (Event.insn.inj (Option.some.inj same)).symm
  rw [written,retype_integral form integral retyped]
  obtain ⟨inside,here⟩ := Array.getElem?_eq_some_iff.mp found
  rw [Array.setIfInBounds,dif_pos inside,← here]
  exact Array.set_getElem_self inside

theorem settles_integral (settled : Settles Integral d e) (plain : Plain d) : e.events = d.events := by
  induction settled with
  | refl => rfl
  | unite _ _ _ _ _ ih => rw [Draft.union_events,ih]
  | @resolve m e g type prior has isOpen integral done ih =>
    refine foldlM_keeps (P := fun n => n.events = d.events) ?_ ?_ (Draft.resolve_sites isOpen done)
    · intro n site o _ same step
      have still : Plain n := by
        unfold Plain Draft.outline at plain ⊢
        rw [same,plain]
      rw [retypeSite_integral still integral step,same]
    · exact ih

theorem settles_plain (settled : Settles Integral d e) (plain : Plain d) : Plain e := by
  unfold Plain
  rw [settled.outline,settles_integral settled plain]
  exact plain

theorem evolves_plain (valid : s.Valid Integral p) (plain : Plain s.draft) (form : ∀ i ∈ block, i.untyped = i)
    (path : Evolves Integral s block t) : Plain t.draft := by
  induction path with
  | refl => exact plain
  | emit i prior ih =>
    have same : i.untyped = i := form i (by simp)
    exact plain_push (ih fun k member => form k (by simp [member])) (.insn i) (by rw [Event.untyped,same])
  | @site m block g i prior has same timely ih =>
    have before : Plain (m.draft.addSite g m.draft.events.size) := ih fun k member => form k (by simp [member])
    exact plain_push before (.insn i) (by rw [Event.untyped,same])
  | group wide prior ih => exact ih form
  | settle prior settled ih => exact settles_plain settled (ih form)
  | write prior _ done ih =>
    obtain ⟨f,-,rfl⟩ := setRegister_frame done
    exact ih form
  | arrive prior done ih =>
    obtain ⟨joined,d,rfl,arrived⟩ := arrive_arrived integral_closed.int (prior.valid integral_closed.int valid) done
    exact settles_plain arrived.settles (ih form)
  | hold prior _ ih => exact ih form

-- What an instruction of the fragment is lowered to has that form.

def Part.isPlain : Part → Prop
  | .code i => i.untyped = i
  | .bits _ value _ => value.untyped = value
  | _ => True

theorem kind_untyped (integral : kind = .int ∨ kind = .long) : kind.untyped = kind := by
  rcases integral with rfl | rfl <;> rfl

theorem expands_plain (plain : part.isPlain) (expands : Expands Integral p part block) : ∀ i ∈ block, i.untyped = i := by
  cases expands with
  | code =>
    intro k member
    obtain rfl := List.mem_singleton.mp member
    exact plain
  | read integral _ known => simp [Insn.untyped,kind_untyped (integral_kind integral known)]
  | recast integral _ known held holds found =>
    rcases integral_kind integral known with rfl | rfl <;> rcases integral_kind held holds with rfl | rfl <;> cases found
  | look => simp [Insn.untyped,Kind.untyped]
  | write integral _ known _ => simp [Insn.untyped,kind_untyped (integral_kind integral known)]
  | @copy _ _ _ _ wide kind _ _ known _ _ =>
    have integral : kind = .int ∨ kind = .long := by
      rcases known with rfl | ⟨held,integral,holds⟩
      · cases wide
        · exact .inl rfl
        · exact .inr rfl
      · exact integral_kind integral holds
    simp [Insn.untyped,kind_untyped integral]
  | @bits _ _ value wide _ _ =>
    have same : value.untyped = value := plain
    have kind : (openKind wide).untyped = openKind wide := by cases wide <;> rfl
    simp [Insn.untyped,same,kind]

theorem expandsAll_plain (plain : ∀ part ∈ parts, part.isPlain) (expanded : ExpandsAll Integral p parts block) :
    ∀ i ∈ block, i.untyped = i := by
  induction expanded with
  | nil => simp
  | cons expands _ ih =>
    intro i member
    rcases List.mem_append.mp member with here | later
    · exact expands_plain (plain _ List.mem_cons_self) expands i here
    · exact ih (fun part rest => plain part (List.mem_cons_of_mem _ rest)) i later

theorem plain_reads (reads : List (Nat × Descriptor)) : ∀ part ∈ readParts reads, part.isPlain := by
  intro part member
  obtain ⟨pair,-,rfl⟩ := List.mem_map.mp member
  trivial

theorem plain_unary {op : UnaryOp} {source target : Kind} :
    ∀ part ∈ (unaryInsns op source target).map Part.code, part.isPlain := by
  cases op <;> simp [unaryInsns,Part.isPlain,Insn.untyped]

-- A comparison of references is not among these: its operands would have no type.
theorem template_plain {result : Descriptor} {left after : Option Descriptor} (integral : instruction.isIntegral = true)
    (template : Template result instruction left parts after) (expanded : ExpandsAll Integral p parts block) :
    ∀ part ∈ parts, part.isPlain := by
  have reads : ∀ {r : Nat} {type : Descriptor} {rest : List Part}, ExpandsAll Integral p (.read r type :: rest) block →
      type.isReference = false := by
    rintro r type rest (_ | ⟨expands,_⟩)
    cases expands with
    | read typed _ known => exact integral_plain typed
    | recast typed _ known _ _ _ => exact integral_plain typed
  cases template with
  | testReference reference =>
    rw [reads expanded] at reference
    cases reference
  | testNull reference =>
    rw [reads expanded] at reference
    cases reference
  | @packedSwitch value firstKey targets next => cases targets <;> simp [Part.isPlain,switchInsn,Insn.untyped]
  | invokeStatic taken =>
    intro part member
    rcases List.mem_append.mp member with read | call
    · exact plain_reads _ part read
    · obtain rfl := List.mem_singleton.mp call
      rfl
  | invoke other _ _ =>
    simp only [Instruction.isIntegral,Bool.and_eq_true,decide_eq_true_eq] at integral
    exact absurd integral.1.1 other
  | unary operand given =>
    intro part member
    rcases List.mem_append.mp member with first | write
    · rcases List.mem_append.mp first with read | code
      · obtain rfl := List.mem_singleton.mp read
        trivial
      · exact plain_unary part code
    · obtain rfl := List.mem_singleton.mp write
      trivial
  | compare =>
    simp only [Instruction.isIntegral,decide_eq_true_eq] at integral
    subst integral
    simp [Part.isPlain,compareInsn,Insn.untyped]
  | _ =>
    first
      | exact absurd integral Bool.false_ne_true
      | simp [Part.isPlain,Insn.untyped]

-- Each item adds its own events and changes none before them.

theorem evolves_events (valid : s.Valid Integral p) (plain : Plain s.draft) (form : ∀ i ∈ block, i.untyped = i)
    (path : Evolves Integral s block t) :
    Plain t.draft ∧ t.draft.events.toList = s.draft.events.toList ++ block.map .insn := by
  have after := evolves_plain valid plain form path
  refine ⟨after,?_⟩
  have same : block.map (fun i => Event.insn i.untyped) = block.map .insn :=
    List.map_congr_left fun i member => by rw [form i member]
  rw [← after,← plain,path.outline integral_closed.int valid,same]

theorem popping_plain (pending : Option Descriptor) : ∀ i ∈ popping pending, i.untyped = i := by
  intro i member
  obtain ⟨type,-,rfl⟩ := List.mem_map.mp member
  cases type.isWide <;> rfl

theorem instruction_events {address : Nat} {parts : List Part} (integral : instruction.isIntegral = true)
    (valid : s.Valid Integral p) (plain : Plain s.draft)
    (placed : InstructionPlaced Integral p address instruction s m parts block u t) :
    Plain t.draft ∧
      t.draft.events.toList = s.draft.events.toList ++ (dropping instruction s.pending ++ block).map .insn := by
  have form : ∀ i ∈ dropping instruction s.pending ++ block, i.untyped = i := by
    intro i member
    rcases List.mem_append.mp member with dropped | lowered
    · unfold dropping at dropped
      split at dropped
      · cases dropped
      · exact popping_plain s.pending i dropped
    · have parts := template_plain integral placed.lowered.template placed.lowered.expands
      exact expandsAll_plain parts placed.lowered.expands i lowered
  have events := evolves_events valid plain form placed.path
  obtain rfl := placed.result
  exact events

theorem label_events {address : Nat} {label : Label} (valid : s.Valid Integral p) (plain : Plain s.draft)
    (placed : LabelPlaced Integral p label (beforeLabel p address label s) t) :
    Plain t.draft ∧ t.draft.events.toList = s.draft.events.toList ++
      (if isJoin p address label s then popping s.pending else []).map .insn ++ [.label label] := by
  have form : ∀ i ∈ if isJoin p address label s then popping s.pending else [], i.untyped = i := by
    split
    · exact popping_plain s.pending
    · simp
  obtain ⟨before,events⟩ := evolves_events valid plain form (beforeLabel_path p address label s)
  have pushed := plain_push before (.label label) rfl
  refine ⟨settles_plain placed.settles pushed,?_⟩
  rw [settles_integral placed.settles pushed,← events]
  simp

end Lowering

end Restack
