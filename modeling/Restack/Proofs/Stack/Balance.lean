import Mathlib
import Restack.Proofs.Lowering.Depth
import Restack.Proofs.Translation

namespace Restack

open Lowering

-- The stack of a lowered body. The pass over its events finds at each place what
-- lowering had left there, so every ordinary edge fits unless it leads into a
-- handler: that one is entered with an exception and left empty by ordinary code.

variable {c : Container} {shape : MethodShape} {item : CodeItem} {labels : LabelTable} {p : Plan} {start final s t : State}
  {file : Option String} {settings : Settings} {code : Code} {body : BodyItem} {joins : Label → Prop}

def isCaught (p : Plan) (label : Label) : Bool := (p.handlers.caught.get? label.number).isSome

-- What is left on the stack between two items.
def Clear (p : Plan) (joins : Label → Prop) (s : State) : Prop :=
  Checked (isCaught p) joins 0 s.draft.outline (words s.pending)

theorem outline_block (block : List Insn) :
    (block.map fun i => Event.insn i.untyped) = (block.map Event.insn).map Event.untyped := by
  simp [List.map_map,Function.comp_def,Event.untyped]

theorem popping_checked {caught : Label → Bool} (pending : Option Descriptor) :
    Checked caught joins (words pending) ((popping pending).map .insn) 0 := by
  cases pending with
  | none => exact .nil
  | some type =>
    change Checked caught joins (width type.isWide) [.insn (if type.isWide then .pop2 else .pop)] 0
    cases type.isWide with
    | false => exact .plain rfl rfl rfl
    | true => exact .plain rfl rfl rfl

theorem Clear.evolves {P : Descriptor → Prop} {block : List Insn} {last : Nat} (clear : Clear p joins s) (int : P .int)
    (valid : s.Valid P p) (path : Evolves P s block t)
    (checked : Checked (isCaught p) joins (words s.pending) (block.map .insn) last) :
    Checked (isCaught p) joins 0 t.draft.outline last := by
  rw [path.outline int valid,outline_block]
  exact clear.append (Checked.untyped_iff.mpr checked)

theorem Clear.label (way : Translates c shape item labels p start final)
    (narrow : ∀ type ∈ item.classOperands c, type.isWide = false) {address : Nat} {label : Label}
    (member : .label address label ∈ (DecodedBody.ofCode c item.units labels).items)
    (valid : s.Valid (fun _ => True) p) (clear : Clear p labels.Targeted s) (done : placeLabel p address label s = .ok t) :
    Clear p labels.Targeted t := by
  have placed := placeLabel_spec (typed_any p).closed valid done
  -- Before a label where paths meet, what is left is dropped.
  have before : ∃ depth, Checked (isCaught p) labels.Targeted 0 (beforeLabel p address label s).draft.outline depth ∧
      depth = words (beforeLabel p address label s).pending ∧ (labels.Targeted label → depth = 0) := by
    unfold beforeLabel
    split
    · obtain ⟨path,none,-⟩ := discardPending_spec (P := fun _ => True) s
      exact ⟨0,clear.evolves trivial valid path (popping_checked s.pending),by simp [none,words],fun _ => rfl⟩
    · rename_i apart
      refine ⟨_,clear,rfl,fun targeted => ?_⟩
      exact absurd (way.isJoin member targeted s) apart
  obtain ⟨depth,checked,same,empty⟩ := before
  have caught : isCaught p label = true → labels.Targeted label := by
    intro known
    obtain ⟨type,found⟩ := Option.isSome_iff_exists.mp known
    exact (way.registered.caught _ _ found).1
  unfold Clear
  rw [placed.settles.outline,Draft.outline_push,placed.pending]
  refine checked.append (.label (fun here => empty (here.elim caught id)) ?_)
  cases known : p.handlers.caught.get? label.number with
  | none =>
    simp only [isCaught,known,Option.isSome_none,Bool.false_eq_true,if_false,Option.none_or]
    exact same ▸ .nil
  | some type =>
    have single : type.isWide = false := by
      rcases (way.registered.caught _ _ known).2.2 with rfl | named
      · rfl
      · exact narrow type named
    simp only [isCaught,known,Option.isSome_some,if_true,Option.some_or,words,single]
    exact .nil

theorem Clear.instruction (way : Translates c shape item labels p start final)
    (narrow : ∀ type ∈ item.classOperands c, type.isWide = false) {address : Nat} {opcode : Opcode} {i : Instruction}
    (member : .instruction address opcode i ∈ (DecodedBody.ofCode c item.units labels).items)
    (valid : s.Valid (fun _ => True) p) (clear : Clear p labels.Targeted s)
    (done : placeInstruction p address opcode i s = .ok t) : Clear p labels.Targeted t := by
  obtain ⟨m,parts,block,u,placed⟩ := placeInstruction_spec (typed_any p).closed valid (fun _ _ => trivial) done
  obtain ⟨e,present,decoded⟩ := way.decoded member
  have dropped : Checked (isCaught p) labels.Targeted (words s.pending) ((dropping i s.pending).map .insn) (words m.pending) := by
    rw [placed.pending]
    unfold dropping
    split
    · exact .nil
    · exact popping_checked s.pending
  have fits : Checked (isCaught p) labels.Targeted (words m.pending) (block.map .insn) (words u.pending) :=
    template_fits decoded.regular (fun type found => narrow type (decoded_operand present decoded found)) decoded.targets
      placed.lowered.template block placed.lowered.expands
  have all := clear.evolves trivial valid placed.path (by rw [List.map_append]; exact dropped.append fits)
  obtain rfl := placed.result
  exact all

theorem run_clear (way : Translates c shape item labels p start final)
    (narrow : ∀ type ∈ item.classOperands c, type.isWide = false)
    (ran : (DecodedBody.ofCode c item.units labels).items.foldlM (place p) start = .ok s) : Clear p labels.Targeted s := by
  have valid : start.Valid (fun _ => True) p := prepare_valid (fun _ _ => trivial) (fun _ => trivial) way.prepared
  have empty : Clear p labels.Targeted start := by
    rw [way.planned.first]
    exact .nil
  refine (foldlM_keeps (P := fun s => s.Valid (fun _ => True) p ∧ Clear p labels.Targeted s) ?_ ⟨valid,empty⟩ ran).2
  rintro s body t member ⟨valid,clear⟩ done
  refine ⟨place_valid (typed_any p) (itemTyped_any p body) valid done,?_⟩
  cases body with
  | label address label => exact clear.label way narrow member valid done
  | instruction address opcode i => exact clear.instruction way narrow member valid done

-- The depths of an accepted body. One depth per event fits all its edges exactly if no
-- handler is entered but by an exception.
theorem stack_levelled (accepted : Code.ofItem c shape item file settings = .ok code)
    (narrow : ∀ type ∈ item.classOperands c, type.isWide = false) :
    ∃ depth, code.Levelled depth ∧
      (code.Balanced depth ↔ ¬code.HandlerAt 0 ∧ ∀ k j, code.Edge k j → ¬code.HandlerAt j) := by
  obtain ⟨labels,p,start,final,way,-,events,blocks⟩ := ofItem_translates accepted
  have valid : start.Valid (fun _ => True) p := prepare_valid (fun _ _ => trivial) (fun _ => trivial) way.prepared
  obtain ⟨s,ends⟩ := finish_spec (typed_any p) trivial (fun body _ => itemTyped_any p body) valid way.finished
  have clear := run_clear way narrow ends.ran
  have checked : Checked (isCaught p) labels.Targeted 0 code.events (words s.pending) := by
    rw [events]
    refine Checked.untyped_iff.mp ?_
    change Checked _ _ 0 final.draft.outline _
    rw [ends.settles.outline]
    exact clear
  have handlers : ∀ label, isCaught p label = true ↔ ∃ block ∈ code.tryBlocks, block.handler = label := by
    intro label
    rw [blocks]
    constructor
    · intro known
      obtain ⟨type,found⟩ := Option.isSome_iff_exists.mp known
      exact (way.registered.caught _ _ found).2.1
    · rintro ⟨block,member,rfl⟩
      exact way.registered.blocks block member
  have levelled := checked.levelled handlers
  exact ⟨_,levelled,levelled.balanced_iff⟩

-- A constant goes into v0, in a range whose handler is the instruction after it.
def fallsIntoHandler : CodeItem where
  registers := 1
  ins := 0
  outs := 0
  debugInfo := 0
  units := #[0x1012,0x000e]
  tries := [⟨0,1,1⟩]
  handlers := [(1,⟨[],some 1⟩)]

def plainShape : MethodShape := ⟨.object "a/T",true,⟨[],.void⟩⟩

theorem stack_levelled_fallsIntoHandler :
    ∃ code depth, Code.ofItem bare plainShape fallsIntoHandler none {} = .ok code ∧ code.HandlerAt 3 ∧ code.Levelled depth ∧
      (code.Balanced depth ↔ ¬code.HandlerAt 0 ∧ ∀ k j, code.Edge k j → ¬code.HandlerAt j) := by
  obtain ⟨code,accepted,handler⟩ : ∃ code, Code.ofItem bare plainShape fallsIntoHandler none {} = .ok code ∧
      code.HandlerAt 3 := ⟨_,rfl,_,List.mem_cons_self,rfl⟩
  obtain ⟨depth,levelled,exact⟩ := stack_levelled accepted (fun type member => nomatch member)
  exact ⟨code,depth,accepted,handler,levelled,exact⟩

-- An instance is created of what is no class but a type of wide values.
def newLong : CodeItem where
  registers := 2
  ins := 0
  outs := 0
  debugInfo := 0
  units := #[0x0022,0x0000,0x000e]
  tries := []
  handlers := []

def longPool : Container := { bare with strings := #["J"], types := #[0] }

-- The first handler drops an exception that is not there when control falls into
-- it, and the second body stores two words where there is one.
theorem accepted_unbalanced :
    (∃ code, Code.ofItem bare plainShape fallsIntoHandler none {} = .ok code ∧ ¬∃ depth, code.Balanced depth) ∧
      ∃ code, Code.ofItem longPool plainShape newLong none {} = .ok code ∧ ¬∃ depth, code.Balanced depth := by
  constructor
  · obtain ⟨code,accepted,handler,events⟩ : ∃ code, Code.ofItem bare plainShape fallsIntoHandler none {} = .ok code ∧
        code.HandlerAt 3 ∧ code.events =
          [.label ⟨0⟩,.insn (.const (.int 1)),.insn (.store .int 0),.label ⟨1⟩,.insn .pop,.insn (.leave none),.label ⟨2⟩] :=
      ⟨_,rfl,⟨_,List.mem_cons_self,rfl⟩,rfl⟩
    refine ⟨code,accepted,?_⟩
    rintro ⟨depth,balanced⟩
    have empty := balanced.straight [.label ⟨0⟩,.insn (.const (.int 1)),.insn (.store .int 0)] events
      (by decide) (by simp)
    have full := balanced.handlers 3 handler
    cases empty.trans (congrArg some full)
  · obtain ⟨code,accepted,events⟩ : ∃ code, Code.ofItem longPool plainShape newLong none {} = .ok code ∧
        code.events = [.label ⟨0⟩,.insn (.new "J"),.insn (.store .long 0),.insn (.leave none),.label ⟨1⟩] := ⟨_,rfl,rfl⟩
    refine ⟨code,accepted,?_⟩
    rintro ⟨depth,balanced⟩
    cases balanced.straight [.label ⟨0⟩,.insn (.new "J"),.insn (.store .long 0)] events (by decide) (by simp)

end Restack
