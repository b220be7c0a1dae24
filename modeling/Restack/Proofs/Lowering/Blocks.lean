import Mathlib
import Restack.Proofs.Body.Targets
import Restack.Proofs.Lowering.Flow
import Restack.Proofs.Lowering.Loads

namespace Restack.Lowering

-- What the code of one instruction looks like: it stores at its end if at all, and leads
-- only where the instruction does.

variable {P : Descriptor → Prop} {p : Plan} {s t m u : State} {i : Instruction} {part : Part} {parts : List Part}
  {block : List Insn} {result : Descriptor} {left after : Option Descriptor} {address : Nat} {label : Label}

def Part.writes : Part → Bool
  | .code i => i.isStore
  | .read .. | .look _ => false
  | .write .. | .copy .. | .bits .. => true

def Part.targets : Part → List Label
  | .code i => i.targets
  | _ => []

theorem expands_stores (expands : Expands P p part block) :
    (∀ i ∈ block.dropLast, i.isStore = false) ∧ (part.writes = false → ∀ i ∈ block, i.isStore = false) := by
  cases expands <;> simp [Part.writes,Insn.isStore]

theorem expands_targets (expands : Expands P p part block) {i : Insn} (member : i ∈ block) (target : label ∈ i.targets) :
    label ∈ part.targets := by
  cases expands with
  | code =>
    obtain rfl := List.mem_singleton.mp member
    exact target
  | _ =>
    simp only [List.mem_cons,List.not_mem_nil,or_false] at member
    rcases member with rfl | rfl <;> cases target

theorem expandsAll_stores (expanded : ExpandsAll P p parts block) (reads : ∀ part ∈ parts.dropLast, part.writes = false) :
    ∀ i ∈ block.dropLast, i.isStore = false := by
  induction expanded with
  | nil => simp
  | @cons part parts here rest expands others ih =>
    obtain ⟨final,none⟩ := expands_stores expands
    cases parts with
    | nil =>
      cases others
      simpa using final
    | cons next parts =>
      have first := none (reads part (by simp))
      have more := ih fun other member => reads other (by simp [member])
      intro i member
      rcases List.eq_nil_or_concat rest with rfl | ⟨front,back,rfl⟩
      · rw [List.append_nil] at member
        exact first i (List.mem_of_mem_dropLast member)
      · rw [List.concat_eq_append,← List.append_assoc,List.dropLast_concat] at member
        rw [List.concat_eq_append,List.dropLast_concat] at more
        exact (List.mem_append.mp member).elim (first i) (more i)

theorem expandsAll_targets (expanded : ExpandsAll P p parts block) {i : Insn} (member : i ∈ block) (target : label ∈ i.targets) :
    ∃ part ∈ parts, label ∈ part.targets := by
  induction expanded with
  | nil => cases member
  | cons expands _ ih =>
    rcases List.mem_append.mp member with here | there
    · exact ⟨_,List.mem_cons_self,expands_targets expands here target⟩
    · obtain ⟨part,present,found⟩ := ih there
      exact ⟨part,List.mem_cons_of_mem _ present,found⟩

theorem elementParts_plain {element : Descriptor} {kind : ArrayKind} (next : Nat) (registers : List Nat) :
    ∀ part ∈ elementParts element kind next registers, part.writes = false ∧ part.targets = [] := by
  induction registers generalizing next with
  | nil => simp [elementParts]
  | cons r registers ih => simpa [elementParts,Part.writes,Part.targets,Insn.isStore,Insn.targets] using ih (next + 1)

theorem dataParts_plain {array element : Descriptor} {kind : ArrayKind} (r next : Nat) (elements : List Nat) :
    ∀ part ∈ dataParts r array element kind next elements, part.writes = false ∧ part.targets = [] := by
  induction elements generalizing next with
  | nil => simp [dataParts]
  | cons bits elements ih => simpa [dataParts,Part.writes,Part.targets,Insn.isStore,Insn.targets] using ih (next + 1)

theorem readParts_plain (reads : List (Nat × Descriptor)) :
    ∀ part ∈ readParts reads, part.writes = false ∧ part.targets = [] := by
  intro part member
  obtain ⟨pair,-,rfl⟩ := List.mem_map.mp member
  exact ⟨rfl,rfl⟩

theorem unaryParts_plain (op : UnaryOp) (source into : Kind) :
    ∀ part ∈ (unaryInsns op source into).map Part.code, part.writes = false ∧ part.targets = [] := by
  intro part member
  obtain ⟨i,present,rfl⟩ := List.mem_map.mp member
  have plain := unaryInsns_plain op source into i present
  obtain ⟨nowhere,still⟩ := Insn.isPlain_parts plain
  refine ⟨?_,nowhere⟩
  cases i <;> first | rfl | cases still

theorem template_writes (template : Template result i left parts after) : ∀ part ∈ parts.dropLast, part.writes = false := by
  cases template with
  | filledNewArray =>
    intro part member
    have present := List.mem_of_mem_dropLast member
    simp only [List.cons_append,List.nil_append,List.mem_cons] at present
    rcases present with rfl | rfl | inner
    · rfl
    · rfl
    · exact (elementParts_plain _ _ part inner).1
  | fillArrayData => exact fun part member => (dataParts_plain _ _ _ part (List.mem_of_mem_dropLast member)).1
  | invokeStatic =>
    rw [List.dropLast_concat]
    exact fun part member => (readParts_plain _ part member).1
  | invoke =>
    rw [List.dropLast_concat]
    exact fun part member => (readParts_plain _ part member).1
  | unary =>
    rw [List.dropLast_concat]
    intro part member
    rcases List.mem_append.mp member with first | inner
    · obtain rfl := List.mem_singleton.mp first
      rfl
    · exact (unaryParts_plain _ _ _ part inner).1
  | @compare op => cases op <;> simp [Part.writes,compareInsn,Insn.isStore]
  | _ => simp [Part.writes,Insn.isStore]

theorem template_targets (template : Template result i left parts after) : ∀ part ∈ parts, part.targets ⊆ i.targets := by
  have nowhere : ∀ {part : Part}, part.targets = [] → part.targets ⊆ i.targets := by
    intro part none
    rw [none]
    exact List.nil_subset _
  cases template with
  | filledNewArray =>
    simp only [List.cons_append,List.nil_append,List.forall_mem_cons]
    exact ⟨nowhere rfl,nowhere rfl,fun part inner => nowhere (elementParts_plain _ _ part inner).2⟩
  | fillArrayData => exact fun part inner => nowhere (dataParts_plain _ _ _ part inner).2
  | invokeStatic =>
    simp only [List.forall_mem_append,List.forall_mem_singleton]
    exact ⟨fun part inner => nowhere (readParts_plain _ part inner).2,nowhere rfl⟩
  | invoke =>
    simp only [List.forall_mem_append,List.forall_mem_singleton]
    exact ⟨fun part inner => nowhere (readParts_plain _ part inner).2,nowhere rfl⟩
  | unary =>
    simp only [List.forall_mem_append,List.forall_mem_singleton]
    exact ⟨⟨nowhere rfl,fun part inner => nowhere (unaryParts_plain _ _ _ part inner).2⟩,nowhere rfl⟩
  | @compare op => cases op <;> simp [Part.targets,compareInsn,Insn.targets]
  | @packedSwitch value firstKey targets next =>
    simp only [List.forall_mem_cons,List.not_mem_nil,false_imp_iff,implies_true,and_true]
    exact ⟨nowhere rfl,fun label target => ((switchInsn_targets firstKey targets next).1 label).mpr target⟩
  | _ => simp [Part.targets,Insn.targets,Instruction.targets]

theorem Lowered.stores (lowered : Lowered P p i s parts block t) : ∀ i ∈ block.dropLast, i.isStore = false :=
  expandsAll_stores lowered.expands (template_writes lowered.template)

theorem Lowered.targets (lowered : Lowered P p i s parts block t) {insn : Insn} (member : insn ∈ block)
    (target : label ∈ insn.targets) : label ∈ i.targets := by
  obtain ⟨part,present,found⟩ := expandsAll_targets lowered.expands member target
  exact template_targets lowered.template part present found

theorem popping_drops (pending : Option Descriptor) : ∀ i ∈ popping pending, i.drops = true := by
  intro i member
  obtain ⟨type,-,rfl⟩ := List.mem_map.mp member
  cases type.isWide <;> rfl

theorem dropping_drops (pending : Option Descriptor) : ∀ insn ∈ dropping i pending, insn.drops = true := by
  unfold dropping
  split
  · simp
  · exact popping_drops pending

end Restack.Lowering
