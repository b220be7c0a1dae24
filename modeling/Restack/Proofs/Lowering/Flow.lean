import Mathlib
import Restack.Proofs.Stack.Depth
import Restack.Proofs.Lowering.Trail

namespace Restack

-- Where control falls into an item from above. An instruction that has no code of its own
-- hands on what falls into it.

def Instruction.leaves : Instruction → Bool
  | .returnVoid | .returnValue .. | .throwValue _ | .goto _ | .packedSwitch .. | .sparseSwitch .. => true
  | _ => false

def Instruction.isSilent : Instruction → Bool
  | .nop => true
  | .fillArrayData _ data => data.elements.isEmpty
  | _ => false

def fallsOut : List BodyItem → Bool
  | [] | .label _ _ :: _ => true
  | .instruction _ _ i :: before => if i.isSilent then fallsOut before else !i.leaves

namespace Lowering

variable {P : Descriptor → Prop} {p : Plan} {start s t : State} {items : List BodyItem} {k : Nat} {i : Instruction}
  {part : Part} {parts : List Part} {block : List Insn} {result : Descriptor} {left after : Option Descriptor}

def Part.isTerminal : Part → Bool
  | .code i => i.isTerminal
  | _ => false

-- The last instruction of a block decides whether control goes on.
def lastLeaves (block : List Insn) : Option Bool := block.getLast?.map Insn.isTerminal

theorem expands_last (expands : Expands P p part block) : lastLeaves block = some part.isTerminal := by
  cases expands <;> rfl

theorem expandsAll_last (expanded : ExpandsAll P p parts block) : lastLeaves block = parts.getLast?.map Part.isTerminal := by
  induction expanded with
  | nil => rfl
  | @cons part parts here rest expands others ih =>
    unfold lastLeaves at ih ⊢
    rw [List.getLast?_append,List.getLast?_cons]
    cases last : parts.getLast? with
    | none =>
      obtain rfl := List.getLast?_eq_none_iff.mp last
      cases others
      simpa [lastLeaves] using expands_last expands
    | some final =>
      rw [last] at ih
      obtain ⟨insn,found,same⟩ := Option.map_eq_some_iff.mp ih
      simp [found,same]

theorem elementParts_last {element : Descriptor} {kind : ArrayKind} {n : Nat} (head : Part) (goes : head.isTerminal = false)
    (registers : List Nat) : (head :: elementParts element kind n registers).getLast?.map Part.isTerminal = some false := by
  induction registers generalizing n head with
  | nil => simp [elementParts,goes]
  | cons r registers ih =>
    simpa [elementParts,List.getLast?_cons_cons] using ih (n := n + 1) (.code (.arrayStore kind)) rfl

theorem dataParts_last {array element : Descriptor} {kind : ArrayKind} {n r : Nat} (head : Part) (goes : head.isTerminal = false)
    (elements : List Nat) : (head :: dataParts r array element kind n elements).getLast?.map Part.isTerminal = some false := by
  induction elements generalizing n head with
  | nil => simp [dataParts,goes]
  | cons bits elements ih =>
    simpa [dataParts,List.getLast?_cons_cons] using ih (n := n + 1) (.code (.arrayStore kind)) rfl

theorem template_last (template : Template result i left parts after) :
    parts.getLast?.map Part.isTerminal = if i.isSilent then none else some i.leaves := by
  cases template with
  | filledNewArray family => exact elementParts_last (.code _) rfl _
  | @fillArrayData r data element kind family =>
    cases elements : data.elements with
    | nil => simp [dataParts,Instruction.isSilent,elements]
    | cons bits rest =>
      simpa [dataParts,Instruction.isSilent,Instruction.leaves,elements,List.getLast?_cons_cons] using
        dataParts_last (.code (.arrayStore kind)) rfl rest
  | @packedSwitch value firstKey targets next =>
    cases targets <;> rfl
  | @testReference op => cases op <;> rfl
  | @testNull op => cases op <;> rfl
  | unary operand given =>
    rw [List.getLast?_append]
    rfl
  | _ => simp [Part.isTerminal,Insn.isTerminal,Instruction.isSilent,Instruction.leaves]

theorem template_left (template : Template result i left parts after) (some : after ≠ none) :
    i.isSilent = false ∧ i.leaves = false := by
  cases template <;> first | exact absurd rfl some | exact ⟨rfl,rfl⟩

theorem endsTerminal_outline (d : Draft) :
    endsTerminal d = (d.outline.getLast?.map Event.isTerminal).getD false := by
  unfold endsTerminal Draft.outline
  rw [List.getLast?_map,Array.getLast?_toList]
  cases d.events.back? with
  | none => rfl
  | some event =>
    cases event with
    | label label => rfl
    | insn insn => exact (Checked.terminal_untyped insn).symm

theorem endsTerminal_evolves (int : P .int) (valid : s.Valid P p) (path : Evolves P s block t) :
    endsTerminal t.draft = (lastLeaves block).getD (endsTerminal s.draft) := by
  rw [endsTerminal_outline,endsTerminal_outline,path.outline int valid,List.getLast?_append,List.getLast?_map]
  unfold lastLeaves
  cases block.getLast? with
  | none => simp
  | some insn => simp [Event.isTerminal,Checked.terminal_untyped]

theorem popping_last (type : Descriptor) : lastLeaves (popping (some type)) = some false := by
  change some (if type.isWide then Insn.pop2 else Insn.pop).isTerminal = some false
  cases type.isWide <;> rfl

structure Flows (before : List BodyItem) (s : State) : Prop where
  ends : endsTerminal s.draft = !fallsOut before
  flag : s.terminal = endsTerminal s.draft
  left : s.pending ≠ none → fallsOut before = true

theorem flows_start (first : start = { frame := start.frame }) : Flows [] start := by
  rw [first]
  exact ⟨rfl,rfl,fun _ => rfl⟩

theorem Flows.label {before : List BodyItem} {address : Nat} {label : Label} (valid : s.Valid (fun _ => True) p)
    (done : placeLabel p address label s = .ok t) : Flows (.label address label :: before) t := by
  have placed := placeLabel_spec (typed_any p).closed valid done
  have ends : endsTerminal t.draft = false := by
    rw [endsTerminal_outline,placed.settles.outline,Draft.outline_push]
    simp [Event.untyped,Event.isTerminal]
  exact ⟨ends,placed.terminal.trans ends.symm,fun _ => rfl⟩

theorem Flows.instruction {before : List BodyItem} {address : Nat} {opcode : Opcode} (flows : Flows before s)
    (valid : s.Valid (fun _ => True) p) (done : placeInstruction p address opcode i s = .ok t) :
    Flows (.instruction address opcode i :: before) t := by
  obtain ⟨m,parts,block,u,placed⟩ := placeInstruction_spec (typed_any p).closed valid (fun _ _ => trivial) done
  have dropped := endsTerminal_evolves trivial valid placed.cleared
  have stepped := endsTerminal_evolves trivial (placed.cleared.valid trivial valid) placed.lowered.path
  rw [expandsAll_last placed.lowered.expands,template_last placed.lowered.template] at stepped
  have left := template_left placed.lowered.template
  obtain rfl := placed.result
  refine ⟨?_,rfl,fun some => by simp [fallsOut,left some]⟩
  change endsTerminal u.draft = _
  rw [stepped,fallsOut]
  cases silent : i.isSilent with
  | false => simp
  | true =>
    -- What was left on the stack is dropped here, and something falls in then.
    have drops : takesPending i = false := by cases i <;> first | rfl | cases silent
    simp only [if_true,Option.getD_none]
    rw [dropped,dropping,drops]
    cases pending : s.pending with
    | none => exact flows.ends
    | some type =>
      rw [flows.left (by simp [pending]),if_neg Bool.false_ne_true,popping_last]
      rfl

theorem stateAt_flows (valid : start.Valid (fun _ => True) p) (here : stateAt p start items k = .ok s)
    (fresh : Flows [] start) : Flows (items.take k).reverse s := by
  induction k generalizing s with
  | zero =>
    cases here
    exact fresh
  | succ k ih =>
    rcases stateAt_next here with ⟨past,here⟩ | ⟨item,m,found,reached,placed⟩
    · rw [List.take_of_length_le (Nat.le_succ_of_le past),← List.take_of_length_le past]
      exact ih here
    · have known := stateAt_valid (typed_any p) (fun item _ => itemTyped_any p item) valid reached
      have flows := ih reached
      rw [List.take_add_one,found]
      simp only [Option.toList_some,List.reverse_append,List.reverse_singleton,List.singleton_append]
      cases item with
      | label address label => exact Flows.label known placed
      | instruction address opcode i => exact flows.instruction known placed

theorem run_flows (valid : start.Valid (fun _ => True) p) (fresh : Flows [] start)
    (ran : items.foldlM (place p) start = .ok s) : Flows items.reverse s := by
  have flows := stateAt_flows valid ((stateAt_past (Nat.le_refl items.length)).trans ran) fresh
  rwa [List.take_length] at flows

end Lowering

end Restack
