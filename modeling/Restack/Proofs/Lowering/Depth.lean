import Mathlib
import Restack.Proofs.Body.Operands
import Restack.Proofs.Lowering.Run
import Restack.Proofs.Stack.Depth

namespace Restack.Lowering

-- How lowered code moves the depth of the stack. Between two instructions of the
-- source nothing is on the stack but a result or an exception that was left there.

variable {caught : Label → Bool} {joins : Label → Prop} {P : Descriptor → Prop} {p : Plan} {part : Part}
  {parts : List Part} {block : List Insn} {depth middle last r : Nat} {type result : Descriptor} {kind : Kind} {insn : Insn}
  {i : Instruction} {before after : Option Descriptor}

def words : Option Descriptor → Nat
  | none => 0
  | some type => width type.isWide

theorem slots_of_kind (known : type.kind? = some kind) : type.slots = kind.words ∧ kind.words = width type.isWide := by
  cases type <;> cases known <;> exact ⟨rfl,rfl⟩

theorem slots_of_narrow (known : type.kind? = some kind) (narrow : type.isWide = false) : type.slots = 1 := by
  obtain ⟨slots,wide⟩ := slots_of_kind known
  rw [slots,wide,narrow]
  rfl

def Fits (caught : Label → Bool) (joins : Label → Prop) (P : Descriptor → Prop) (p : Plan) (parts : List Part)
    (depth last : Nat) : Prop :=
  ∀ block, ExpandsAll P p parts block → Checked caught joins depth (block.map .insn) last

theorem Fits.nil : Fits caught joins P p [] depth depth := by
  rintro block ⟨⟩
  exact .nil

theorem Fits.cons (first : ∀ block, Expands P p part block → Checked caught joins depth (block.map .insn) middle)
    (rest : Fits caught joins P p parts middle last) : Fits caught joins P p (part :: parts) depth last := by
  rintro block (_ | ⟨expands,others⟩)
  rw [List.map_append]
  exact (first _ expands).append (rest _ others)

theorem after_load (kind : Kind) (slot depth : Nat) : (Insn.load kind slot).after? depth = some (depth + kind.words) := by
  simp [Insn.after?,Insn.effect?]

theorem after_store (kind : Kind) (slot depth : Nat) : (Insn.store kind slot).after? (depth + kind.words) = some depth := by
  simp [Insn.after?,Insn.effect?]

theorem after_reinterpretation {held want : Kind} {call : MemberRef} (found : reinterpretation? held want = some call)
    (depth : Nat) : (Insn.invoke .static call).after? (depth + held.words) = some (depth + want.words) := by
  have effect : (Insn.invoke .static call).effect? = some ⟨held.words,want.words⟩ := by
    unfold reinterpretation? at found
    split at found <;> cases found <;> decide
  simp [Insn.after?,effect]

theorem Fits.read (rest : Fits caught joins P p parts (depth + type.slots) last) :
    Fits caught joins P p (.read r type :: parts) depth last := by
  refine .cons ?_ rest
  intro block expands
  cases expands with
  | read _ _ wanted =>
    rw [(slots_of_kind wanted).1]
    exact .plain (after_load _ _ _) rfl rfl
  | recast _ _ wanted _ holds found =>
    rw [(slots_of_kind wanted).1]
    exact .step _ (after_load _ _ _) rfl rfl (.plain (after_reinterpretation found _) rfl rfl)

theorem Fits.write (rest : Fits caught joins P p parts depth last) :
    Fits caught joins P p (.write r type :: parts) (depth + type.slots) last := by
  refine .cons ?_ rest
  intro block expands
  cases expands with
  | write _ _ known _ =>
    rw [(slots_of_kind known).1]
    exact .plain (after_store _ _ _) rfl rfl

-- A type with no wide values takes one word, if it has values at all.

theorem Fits.readNarrow (narrow : type.isWide = false) (rest : Fits caught joins P p parts (depth + 1) last) :
    Fits caught joins P p (.read r type :: parts) depth last := by
  intro block expanded
  have one : type.slots = 1 := by
    obtain _ | ⟨expands,_⟩ := expanded
    cases expands with
    | read _ _ known => exact slots_of_narrow known narrow
    | recast _ _ known _ _ _ => exact slots_of_narrow known narrow
  exact Fits.read (one.symm ▸ rest) block expanded

theorem Fits.writeNarrow (narrow : type.isWide = false) (rest : Fits caught joins P p parts depth last) :
    Fits caught joins P p (.write r type :: parts) (depth + 1) last := by
  intro block expanded
  have one : type.slots = 1 := by
    obtain _ | ⟨expands,_⟩ := expanded
    cases expands with
    | write _ _ known _ => exact slots_of_narrow known narrow
  have fits : Fits caught joins P p (.write r type :: parts) (depth + type.slots) last := .write rest
  rw [one] at fits
  exact fits block expanded

theorem Fits.take : Fits caught joins P p [.write r type] (words (some type)) (words none) := by
  intro block expanded
  have fits : Fits caught joins P p [.write r type] (0 + type.slots) 0 := .write .nil
  have same : words (some type) = 0 + type.slots := by
    obtain _ | ⟨expands,_⟩ := expanded
    cases expands with
    | write _ _ known _ => simp [words,(slots_of_kind known).1,(slots_of_kind known).2]
  rw [same]
  exact fits block expanded

theorem Fits.look (rest : Fits caught joins P p parts (depth + 1) last) :
    Fits caught joins P p (.look r :: parts) depth last := by
  refine .cons ?_ rest
  intro block expands
  cases expands with
  | look _ => exact .plain (after_load _ _ _) rfl rfl

theorem fits_copy {dest source : Nat} {wide : Bool} : Fits caught joins P p [.copy dest source wide] depth depth := by
  refine .cons ?_ .nil
  intro block expands
  cases expands with
  | copy _ _ _ _ _ =>
    exact .step _ (after_load _ _ _) rfl rfl (.plain (after_store _ _ _) rfl rfl)

theorem fits_bits {value : Constant} {wide : Bool} (fits : value.words = (openKind wide).words) :
    Fits caught joins P p [.bits r value wide] depth depth := by
  refine .cons ?_ .nil
  intro block expands
  cases expands with
  | bits _ _ =>
    have pushed : (Insn.const value).after? depth = some (depth + (openKind wide).words) := by
      simp [Insn.after?,Insn.effect?,fits]
    exact .step _ pushed rfl rfl (.plain (after_store _ _ _) rfl rfl)

theorem Fits.code (middle : Nat) (moves : insn.after? depth = some middle) (targets : insn.targets = []) (goes : insn.isTerminal = false)
    (rest : Fits caught joins P p parts middle last) : Fits caught joins P p (.code insn :: parts) depth last := by
  refine .cons ?_ rest
  rintro block ⟨⟩
  exact .plain moves targets goes

theorem Fits.leaves (moves : insn.after? depth = some 0) (targets : ∀ target ∈ insn.targets, joins target) :
    Fits caught joins P p [.code insn] depth 0 := by
  refine .cons ?_ .nil
  rintro block ⟨⟩
  refine .insn moves (fun target member => ⟨rfl,targets target member⟩) ?_
  rw [ite_self]
  exact .nil

def totalSlots (types : List Descriptor) : Nat := (types.map Descriptor.slots).sum

theorem argSlots_eq (signature : MethodDescriptor) : signature.argSlots = totalSlots signature.args := by
  unfold MethodDescriptor.argSlots totalSlots
  induction signature.args with
  | nil => rfl
  | cons type types ih => simp [ih]

theorem arguments_types {registers : List Nat} {types : List Descriptor} {next : Nat} {reads : List (Nat × Descriptor)}
    (taken : arguments? registers types next = some reads) : reads.map Prod.snd = types := by
  induction types generalizing next reads with
  | nil =>
    unfold arguments? at taken
    split at taken
    · cases taken
      rfl
    · cases taken
  | cons type types ih =>
    unfold arguments? at taken
    split at taken
    · rename_i r rest _ further
      cases taken
      simp [ih further]
    · cases taken

theorem Fits.reads {reads : List (Nat × Descriptor)}
    (rest : Fits caught joins P p parts (depth + totalSlots (reads.map Prod.snd)) last) :
    Fits caught joins P p (readParts reads ++ parts) depth last := by
  induction reads generalizing depth with
  | nil => simpa [readParts,totalSlots] using rest
  | cons pair reads ih =>
    refine .read (ih ?_)
    simpa [totalSlots,Nat.add_assoc] using rest

theorem words_result (m : MethodReference) : words (resultLeft m) = m.signature.result.slots := by
  unfold resultLeft words
  cases m.signature.result <;> rfl

theorem after_invoke {dispatch : Dispatch} {owner name : String} {signature : MethodDescriptor}
    (spelled : MethodDescriptor.parse? signature.text = some signature) (depth : Nat)
    (enough : depth = (if dispatch = .static then 0 else 1) + totalSlots signature.args) :
    (Insn.invoke dispatch ⟨owner,name,signature.text⟩).after? depth = some signature.result.slots := by
  simp [Insn.after?,Insn.effect?,spelled,argSlots_eq,enough]

theorem slots_of_element {family : ArrayKind} (known : type.arrayKind? = some family) :
    type.slots = family.valueKind.words := by
  cases type <;> cases known <;> rfl

theorem after_arrayStore (family : ArrayKind) (depth : Nat) :
    (Insn.arrayStore family).after? (depth + 2 + family.valueKind.words) = some depth := by
  simp [Insn.after?,Insn.effect?,Nat.add_assoc]

theorem fits_elements {family : ArrayKind} {n : Nat} {registers : List Nat} (known : type.arrayKind? = some family) :
    Fits caught joins P p (elementParts type family n registers) 1 1 := by
  induction registers generalizing n with
  | nil => exact .nil
  | cons r registers ih =>
    refine .code 2 rfl rfl rfl (.code 3 rfl rfl rfl (.read (.code 1 ?_ rfl rfl ih)))
    rw [slots_of_element known]
    exact after_arrayStore family 1

theorem dataConstant_words {bits : Nat} {family : ArrayKind} (known : type.arrayKind? = some family) :
    (dataConstant type bits).words = family.valueKind.words := by
  cases type <;> cases known <;> rfl

theorem fits_data {family : ArrayKind} {n : Nat} {items : List Nat} (known : type.arrayKind? = some family) :
    Fits caught joins P p (dataParts r (.array type) type family n items) 0 0 := by
  induction items generalizing n with
  | nil => exact .nil
  | cons bits items ih =>
    refine .read (.code 2 rfl rfl rfl (.code (2 + family.valueKind.words) ?_ rfl rfl
      (.code 0 ?_ rfl rfl ih)))
    · simp [Insn.after?,Insn.effect?,dataConstant_words known]
    · simp [Insn.after?,Insn.effect?]

theorem unary_checked {op : UnaryOp} {source target : Kind} (operand : op.operand.kind? = some source)
    (given : op.result.kind? = some target) :
    Checked caught joins op.operand.slots ((unaryInsns op source target).map .insn) op.result.slots := by
  cases op <;> cases operand <;> cases given
  case notInt => exact .step 2 rfl rfl rfl (.plain rfl rfl rfl)
  case notLong => exact .step 4 rfl rfl rfl (.plain rfl rfl rfl)
  all_goals exact .plain rfl rfl rfl

theorem fits_codes {insns : List Insn} (checked : Checked caught joins depth (insns.map .insn) middle)
    (rest : Fits caught joins P p parts middle last) : Fits caught joins P p (insns.map .code ++ parts) depth last := by
  intro block expanded
  obtain ⟨here,others,rfl,codes,more⟩ := expanded.split
  have same : here = insns := by
    clear expanded checked
    induction insns generalizing here with
    | nil =>
      cases codes
      rfl
    | cons insn insns ih =>
      obtain _ | ⟨⟨⟩,tail⟩ := codes
      rw [ih _ tail]
      rfl
  subst same
  rw [List.map_append]
  exact checked.append (rest others more)

theorem after_arith {op : BinaryOp} (known : op.type.kind? = some kind) (other : op.arith ≠ .neg) :
    (Insn.arith op.arith kind).after? (0 + op.type.slots + (if op.isShift then Descriptor.int else op.type).slots) =
      some (0 + op.type.slots) := by
  have one : Descriptor.int.slots = 1 := rfl
  rw [BinaryOp.isShift]
  cases arith : op.arith <;> simp [arith] at other <;>
    simp [Insn.after?,Insn.effect?,Arith.effect,(slots_of_kind known).1,one]

theorem reference_narrow (reference : type.isReference = true) : type.isWide = false := by
  cases type <;> first | rfl | cases reference

theorem template_fits (regular : i.Regular) (narrow : ∀ type, i.classOperand? = some type → type.isWide = false)
    (targets : ∀ label ∈ i.targets, joins label) (template : Template result i before parts after) :
    Fits caught joins P p parts (words before) (words after) := by
  cases template with
  | nop => exact .nil
  | move => exact fits_copy
  | moveResult _ _ => exact .take
  | moveException => exact .take
  | returnVoid => exact .leaves rfl (by simp [Insn.targets])
  | returnValue known =>
    refine .read (.leaves ?_ (by simp [Insn.targets]))
    simp [Insn.after?,Insn.effect?,words,(slots_of_kind known).1]
  | const => exact fits_bits rfl
  | constWide => exact fits_bits rfl
  | constString => exact .code 1 rfl rfl rfl (.writeNarrow rfl .nil)
  | constClass => exact .code 1 rfl rfl rfl (.writeNarrow rfl .nil)
  | monitorEnter => exact .readNarrow rfl (.leaves rfl (by simp [Insn.targets]))
  | monitorExit => exact .readNarrow rfl (.leaves rfl (by simp [Insn.targets]))
  | @checkCast r type =>
    intro block expanded
    have one : 1 ≤ type.slots := by
      obtain _ | ⟨expands,_⟩ := expanded
      have positive : ∀ kind, type.kind? = some kind → 1 ≤ type.slots := by
        intro kind known
        rw [(slots_of_kind known).1]
        unfold Kind.words
        split <;> omega
      cases expands with
      | read _ _ known => exact positive _ known
      | recast _ _ known _ _ _ => exact positive _ known
    refine Fits.read (.code _ ?_ rfl rfl (.write .nil)) block expanded
    simp [Insn.after?,Insn.effect?,words,one]
  | instanceOf => exact .readNarrow rfl (.code 1 rfl rfl rfl (.writeNarrow rfl .nil))
  | arrayLength => exact .readNarrow rfl (.code 1 rfl rfl rfl (.writeNarrow rfl .nil))
  | newInstance => exact .code 1 rfl rfl rfl (.writeNarrow (narrow _ rfl) .nil)
  | newArray => exact .readNarrow rfl (.code 1 rfl rfl rfl (.writeNarrow rfl .nil))
  | filledNewArray family =>
    exact .code 1 rfl rfl rfl (.code 1 rfl rfl rfl (fits_elements family))
  | fillArrayData family => exact fits_data family
  | throwValue => exact .readNarrow rfl (.leaves rfl (by simp [Insn.targets]))
  | goto => exact .leaves rfl targets
  | packedSwitch =>
    refine .readNarrow rfl (.leaves ?_ ?_)
    · unfold switchInsn
      split <;> rfl
    · intro target member
      refine targets target ?_
      unfold switchInsn at member
      split at member
      · simp_all [Insn.targets,Instruction.targets]
      · simpa [Insn.targets,Instruction.targets,or_comm] using member
  | sparseSwitch =>
    refine .readNarrow rfl (.leaves rfl ?_)
    intro target member
    refine targets target ?_
    simpa [Insn.targets,Instruction.targets,or_comm] using member
  | @compare op =>
    refine .read (.read (.code 1 ?_ ?_ ?_ (.writeNarrow rfl .nil)))
    all_goals cases op <;> rfl
  | test => exact .readNarrow rfl (.readNarrow rfl (.leaves rfl targets))
  | testReference reference =>
    have one := reference_narrow reference
    refine .readNarrow one (.readNarrow one (.leaves ?_ targets))
    unfold sameCondition
    split <;> rfl
  | testOpen => exact .look (.look (.leaves rfl targets))
  | testZero => exact .readNarrow rfl (.leaves rfl targets)
  | testNull reference =>
    refine .readNarrow (reference_narrow reference) (.leaves ?_ targets)
    unfold nullCondition
    split <;> rfl
  | testZeroOpen => exact .look (.leaves rfl targets)
  | arrayGet family =>
    refine .readNarrow rfl (.readNarrow rfl (.code _ ?_ rfl rfl (.write .nil)))
    simp [Insn.after?,Insn.effect?,words,slots_of_element family]
  | arrayPut family =>
    refine .readNarrow rfl (.readNarrow rfl (.read (.leaves ?_ (by simp [Insn.targets]))))
    simp [Insn.after?,Insn.effect?,words,slots_of_element family]
  | instanceGet =>
    refine .readNarrow (narrow _ rfl) (.code _ ?_ rfl rfl (.write .nil))
    have spelled : Descriptor.parse? _ = some _ := regular
    simp [Insn.after?,Insn.effect?,words,fieldRef,spelled]
  | instancePut =>
    refine .readNarrow (narrow _ rfl) (.read (.leaves ?_ (by simp [Insn.targets])))
    have spelled : Descriptor.parse? _ = some _ := regular
    simp [Insn.after?,Insn.effect?,words,fieldRef,spelled]
  | staticGet =>
    refine .code _ ?_ rfl rfl (.write .nil)
    have spelled : Descriptor.parse? _ = some _ := regular
    simp [Insn.after?,Insn.effect?,words,fieldRef,spelled]
  | staticPut =>
    refine .read (.leaves ?_ (by simp [Insn.targets]))
    have spelled : Descriptor.parse? _ = some _ := regular
    simp [Insn.after?,Insn.effect?,words,fieldRef,spelled]
  | invokeStatic taken =>
    refine .reads (.code _ (after_invoke regular _ ?_) rfl rfl ?_)
    · simp [words,arguments_types taken]
    · rw [words_result]
      exact .nil
  | @invoke op registers r m reads notStatic _ taken =>
    have one := narrow m.owner (by simp [Instruction.classOperand?,notStatic])
    have virtual : op.dispatch ≠ .static := by cases op <;> simp_all [InvokeOp.dispatch]
    refine .readNarrow one (.reads (.code _ (after_invoke regular _ ?_) rfl rfl ?_))
    · simp [words,arguments_types taken,virtual]
    · rw [words_result]
      exact .nil
  | unary operand given =>
    refine .read (fits_codes ?_ (.write .nil))
    simpa [words] using unary_checked operand given
  | binary known => exact .read (.read (.code _ (after_arith known regular) rfl rfl (.write .nil)))
  | @binaryLiteral op =>
    refine .readNarrow rfl (.code 2 rfl rfl rfl (.code 1 ?_ rfl rfl (.writeNarrow rfl .nil)))
    have other : op ≠ .neg := regular
    cases op <;> first | rfl | exact absurd rfl other
  | reverseSubtract =>
    exact .code 1 rfl rfl rfl (.readNarrow rfl (.code 1 rfl rfl rfl (.writeNarrow rfl .nil)))

end Restack.Lowering
