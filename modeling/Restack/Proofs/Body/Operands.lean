import Mathlib
import Restack.Proofs.Body.Targets
import Restack.Proofs.Descriptor

namespace Restack

-- What is known of the operands of an instruction because it was decoded: its
-- pool references are spelled as they were read, and its operation is one of the
-- opcode table.

variable {c : Container} {code : CodeItem} {units : CodeUnits} {t : LabelTable} {e : Encoded} {pc : Nat} {index : UInt32}
  {i : Instruction} {opcode : Opcode} {type : Descriptor}

theorem ofText_parses {s : String} (done : Descriptor.ofText s = .ok type) : Descriptor.parse? type.text = some type := by
  unfold Descriptor.ofText at done
  split at done
  · rename_i found
    cases done
    exact Descriptor.parse_again found
  · simp at done

theorem ofText_parses_method {s : String} {signature : MethodDescriptor} (done : MethodDescriptor.ofText s = .ok signature) :
    MethodDescriptor.parse? signature.text = some signature := by
  unfold MethodDescriptor.ofText at done
  split at done
  · rename_i found
    cases done
    exact MethodDescriptor.parse_again found
  · simp at done

theorem fieldReference_parses {field : FieldReference} (done : c.fieldReference index = .ok field) :
    Descriptor.parse? field.type.text = some field.type := by
  simp only [Container.fieldReference,bind_eq_ok,pure_eq_ok] at done
  obtain ⟨_,-,owner,-,type,read,rfl⟩ := done
  exact ofText_parses read

theorem methodReference_parses {method : MethodReference} (done : c.methodReference index = .ok method) :
    MethodDescriptor.parse? method.signature.text = some method.signature := by
  simp only [Container.methodReference,bind_eq_ok,pure_eq_ok] at done
  obtain ⟨_,-,owner,-,signature,read,rfl⟩ := done
  exact ofText_parses_method read

-- Negation has one operand, so it is no binary operation.
def Operation.binaryFits : Operation → Bool
  | .binary op | .binaryInPlace op => op.arith ≠ .neg
  | .binaryLiteral op => op ≠ .neg
  | _ => true

theorem operations_fit : ∀ run ∈ Opcode.runs, ∀ opcode ∈ run.2, opcode.operation.binaryFits = true := by decide

theorem decode_binary (done : Encoded.decode units pc = .ok e) : e.opcode.operation.binaryFits = true := by
  obtain ⟨run,member,opcode⟩ := decode_row done
  exact operations_fit run member e.opcode opcode

def Instruction.Regular : Instruction → Prop
  | .binary op _ _ _ => op.arith ≠ .neg
  | .binaryLiteral op _ _ _ => op ≠ .neg
  | .instanceGet _ _ _ field | .instancePut _ _ _ field | .staticGet _ _ field | .staticPut _ _ field =>
    Descriptor.parse? field.type.text = some field.type
  | .invoke _ _ method => MethodDescriptor.parse? method.signature.text = some method.signature
  | _ => True

-- The type that an instruction takes for the class of an object: of one it
-- creates, or of one it is handed.

def Instruction.classOperand? : Instruction → Option Descriptor
  | .newInstance _ type => some type
  | .instanceGet _ _ _ field | .instancePut _ _ _ field => some field.owner
  | .invoke op _ method => if op = .static then none else some method.owner
  | _ => none

def Encoded.classOperand? (e : Encoded) (c : Container) : Option Descriptor :=
  match e.opcode.operation with
  | .newInstance => (c.typeReference e.pool).toOption
  | .instanceGet _ | .instancePut _ => (c.fieldReference e.pool).toOption.map FieldReference.owner
  | .invoke op => if op = .static then none else (c.methodReference e.pool).toOption.map MethodReference.owner
  | _ => none

structure Decoded (c : Container) (t : LabelTable) (e : Encoded) (i : Instruction) : Prop where
  targets : ∀ label ∈ i.targets, t.Targeted label
  regular : i.Regular
  owner : i.classOperand? = e.classOperand? c

theorem resolve_targets (laid : t.Laid code) (member : .instruction pc e ∈ (Walk.ofCode code.units).blocks)
    (done : e.resolve c t pc = .ok i) : ∀ label ∈ i.targets, t.Targeted label := by
  intro label target
  have nexts : isSwitch e.opcode.operation = true → t.branchLabel (pc + e.units) = .ok label → t.Targeted label :=
    next_targeted laid member
  unfold Encoded.resolve at done
  cases operation : e.opcode.operation with
  | goto | test op | testZero op =>
    simp only [operation,bind_eq_ok,pure_eq_ok] at done
    obtain ⟨found,named,rfl⟩ := done
    obtain rfl := List.mem_singleton.mp target
    exact branch_targeted laid member (by rw [operation]; rfl) named
  | packedSwitch =>
    simp only [operation,bind_eq_ok] at done
    obtain ⟨address,-,payload,read,done⟩ := done
    have marked := payloadAt_targets laid read
    split at done
    · simp only [bind_eq_ok,pure_eq_ok] at done
      obtain ⟨cases,mapped,next,named,rfl⟩ := done
      rcases List.mem_append.mp target with listed | last
      · obtain ⟨b,present,here⟩ := mem_mapM mapped listed
        exact branchLabel_targeted (marked b present) here
      · obtain rfl := List.mem_singleton.mp last
        exact nexts (by rw [operation]; rfl) named
    · simp at done
  | sparseSwitch =>
    simp only [operation,bind_eq_ok] at done
    obtain ⟨address,-,payload,read,done⟩ := done
    have marked := payloadAt_targets laid read
    split at done
    · simp only [bind_eq_ok,pure_eq_ok] at done
      obtain ⟨cases,mapped,next,named,rfl⟩ := done
      rcases List.mem_append.mp target with listed | last
      · obtain ⟨⟨key,found⟩,present,rfl⟩ := List.mem_map.mp listed
        obtain ⟨⟨other,b⟩,paired,here⟩ := mem_mapM mapped present
        simp only [bind_eq_ok,pure_eq_ok,Prod.mk.injEq] at here
        obtain ⟨found,named,-,rfl⟩ := here
        exact branchLabel_targeted (marked b (List.of_mem_zip paired).2) named
      · obtain rfl := List.mem_singleton.mp last
        exact nexts (by rw [operation]; rfl) named
    · simp at done
  | fillArrayData =>
    simp only [operation,bind_eq_ok] at done
    obtain ⟨address,-,payload,-,done⟩ := done
    split at done
    · cases done
      cases target
    · simp at done
  | _ =>
    simp only [operation,bind_eq_ok,pure_eq_ok] at done
    first
      | subst done
      | obtain ⟨_,-,rfl⟩ := done
    cases target

theorem resolve_regular (member : .instruction pc e ∈ (Walk.ofCode code.units).blocks) (done : e.resolve c t pc = .ok i) :
    i.Regular := by
  have fits := decode_binary ((step_block (go_blocks member).2.2).2.2 e rfl)
  unfold Encoded.resolve at done
  cases operation : e.opcode.operation with
  | instanceGet op | instancePut op | staticGet op | staticPut op =>
    simp only [operation,bind_eq_ok,pure_eq_ok] at done
    obtain ⟨field,read,rfl⟩ := done
    exact fieldReference_parses read
  | invoke op =>
    simp only [operation,bind_eq_ok,pure_eq_ok] at done
    obtain ⟨method,read,rfl⟩ := done
    exact methodReference_parses read
  | binary op | binaryInPlace op | binaryLiteral op =>
    simp only [operation,pure_eq_ok] at done
    subst done
    simpa [operation,Operation.binaryFits,Instruction.Regular] using fits
  | packedSwitch | sparseSwitch | fillArrayData =>
    simp only [operation,bind_eq_ok] at done
    obtain ⟨address,-,payload,-,done⟩ := done
    split at done
    · simp only [bind_eq_ok,pure_eq_ok] at done
      first
        | subst done
        | obtain ⟨_,-,_,-,rfl⟩ := done
      trivial
    · simp at done
  | _ =>
    simp only [operation,bind_eq_ok,pure_eq_ok] at done
    first
      | subst done
      | obtain ⟨_,-,rfl⟩ := done
    trivial

theorem resolve_owner (done : e.resolve c t pc = .ok i) : i.classOperand? = e.classOperand? c := by
  unfold Encoded.resolve at done
  cases operation : e.opcode.operation with
  | instanceGet op | instancePut op | newInstance | invoke op =>
    simp only [operation,bind_eq_ok,pure_eq_ok] at done
    obtain ⟨named,read,rfl⟩ := done
    simp [Encoded.classOperand?,operation,Instruction.classOperand?,read,Except.toOption]
  | packedSwitch | sparseSwitch | fillArrayData =>
    simp only [operation,bind_eq_ok] at done
    obtain ⟨address,-,payload,-,done⟩ := done
    split at done
    · simp only [bind_eq_ok,pure_eq_ok] at done
      first
        | subst done
        | obtain ⟨_,-,_,-,rfl⟩ := done
      simp [Encoded.classOperand?,operation,Instruction.classOperand?]
    · simp at done
  | _ =>
    simp only [operation,bind_eq_ok,pure_eq_ok] at done
    first
      | subst done
      | obtain ⟨_,-,rfl⟩ := done
    simp [Encoded.classOperand?,operation,Instruction.classOperand?]

theorem resolve_decoded (laid : t.Laid code) (member : .instruction pc e ∈ (Walk.ofCode code.units).blocks)
    (done : e.resolve c t pc = .ok i) : Decoded c t e i :=
  ⟨resolve_targets laid member done,resolve_regular member done,resolve_owner done⟩

def CodeItem.classOperands (c : Container) (code : CodeItem) : List Descriptor :=
  (Walk.ofCode code.units).blocks.filterMap (fun block =>
    match block with
    | .instruction _ e => e.classOperand? c
    | .data .. => none) ++
  (code.tries.filterMap code.handlerFor).flatMap fun handler =>
    handler.typed.filterMap fun caught => (c.typeReference caught.type).toOption

theorem decoded_operand {type : Descriptor} (member : .instruction pc e ∈ (Walk.ofCode code.units).blocks)
    (decoded : Decoded c t e i) (found : i.classOperand? = some type) : type ∈ code.classOperands c := by
  refine List.mem_append_left _ (List.mem_filterMap.mpr ⟨_,member,?_⟩)
  exact decoded.owner.symm.trans found

end Restack
