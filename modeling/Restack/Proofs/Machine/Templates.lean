import Mathlib
import Restack.Proofs.Body.Operands
import Restack.Proofs.Lowering.Depth
import Restack.Proofs.Machine.Parts

namespace Restack

open Lowering
open RegisterMachine (Registers kindOf? memberOf)
open StackMachine (execute? executeAll? constant?)

-- The code of one instruction against the instruction itself.

variable {p : Plan} {oracle : Oracle} {parts : List Part} {s : RegisterMachine.State} {t : StackMachine.State}
  {r dest source : Nat} {type returns : Descriptor} {kind : Kind} {value a b : Number} {op : Arith} {i : Instruction}
  {pending after : Option Descriptor} {outcome : Except Ending Number} {move : Option (Move RegisterMachine.State)}
  {u : StackMachine.State}

-- What lowering knows to be left on the stack is there, and nothing else.
def Leaves (pending : Option Descriptor) (result : Option Number) (stack : List Number) : Prop :=
  match pending with
  | none => stack = []
  | some type => ∃ value, result = some value ∧ stack = [value] ∧ type.kind? = some value.kind

-- The two machines between two items.
structure Alike (slots : Slots) (pending : Option Descriptor) (s : RegisterMachine.State) (t : StackMachine.State) : Prop where
  mirrors : Mirrors slots s.registers t.locals
  calls : t.calls = s.calls
  stack : Leaves pending s.result t.stack

-- A move of the register machine and what stack code makes of it. Where the register
-- machine is stuck, anything may happen.
def Answers (slots : Slots) (after : Option Descriptor) :
    Option (Move RegisterMachine.State) → Option (Move StackMachine.State) → Prop
  | none, _ => True
  | some (.next s), moved => ∃ t, moved = some (.next t) ∧ Alike slots after s t
  | some (.jump label s), moved => ∃ t, moved = some (.jump label t) ∧ Alike slots none s t
  | some (.ends calls ending), moved => moved = some (.ends calls ending)

def Translated (p : Plan) (oracle : Oracle) (parts : List Part) (t : StackMachine.State) (after : Option Descriptor)
    (move : Option (Move RegisterMachine.State)) : Prop := Performs p oracle parts t (Answers p.slots after move)

theorem translated_stuck : Translated p oracle parts t after none := fun _ _ => trivial

theorem translated_bind {α : Type} {got : Option α} {rest : α → Option (Move RegisterMachine.State)}
    (each : ∀ x, got = some x → Translated p oracle parts t after (rest x)) :
    Translated p oracle parts t after (got >>= rest) := by
  cases got with
  | none => exact translated_stuck
  | some x => exact each x rfl

theorem read_int {x : BitVec 32} (got : s.int? r = some x) : s.read? r .int = some (.int x) :=
  congrArg (Option.map Number.int) got

theorem read_long {x : BitVec 64} (got : s.registers.long? r = some x) : s.read? r .long = some (.long x) :=
  congrArg (Option.map Number.long) got

theorem read_kind (got : s.read? r type = some value) (known : type.kind? = some kind) : value.kind = kind := by
  obtain ⟨held,same,read⟩ := Option.bind_eq_some_iff.mp got
  rw [known] at same
  cases same
  exact Registers.read_kind read

theorem translated_read (mirrors : Mirrors p.slots s.registers t.locals) (got : s.read? r type = some value)
    (rest : Translated p oracle parts (t.push value) after move) :
    Translated p oracle (.read r type :: parts) t after move := by
  obtain ⟨kind,known,read⟩ := Option.bind_eq_some_iff.mp got
  exact Performs.read mirrors read known rest

theorem translated_reference (reference : type.isReference = true) :
    Translated p oracle (.read r type :: parts) t after move := by
  intro block expanded
  obtain _ | ⟨expands,-⟩ := expanded
  have integral : Integral type := by cases expands <;> assumption
  rw [integral_plain integral] at reference
  cases reference

theorem translated_written (alike : Alike p.slots none s t)
    (performs : ∀ {Q}, (∀ locals, Mirrors p.slots (s.registers.write dest value) locals →
      Performs p oracle [] { t with locals } Q) → Performs p oracle parts u Q) :
    Translated p oracle parts u none (s.write? dest value) := by
  refine translated_bind ?_
  intro registers written
  unfold Registers.write? at written
  split at written
  · cases written
    refine performs ?_
    intro locals mirrors
    exact Performs.nil ⟨_,rfl,mirrors,alike.calls,alike.stack⟩
  · cases written

theorem translated_write (enough : p.slots.ins ≤ p.slots.registers) (alike : Alike p.slots none s t)
    (known : type.kind? = some value.kind) :
    Translated p oracle [.write dest type] (t.push value) none (s.write? dest value) :=
  translated_written alike fun rest => Performs.write enough alike.mirrors known rest

theorem translated_branch {j : Insn} {taken : Bool} {target : Label} (alike : Alike p.slots none s t)
    (moved : execute? oracle u j = some (t.branch taken target)) :
    Translated p oracle [.code j] u none (some (s.branch taken target)) := by
  refine Performs.last ?_
  rw [moved]
  have kept : Alike p.slots none { s with result := none } t := ⟨alike.mirrors,alike.calls,alike.stack⟩
  cases taken with
  | false => exact ⟨t,rfl,kept⟩
  | true => exact ⟨t,rfl,kept⟩

theorem translated_ends {j : Insn} {ending : Ending} (alike : Alike p.slots pending s t)
    (moved : execute? oracle u j = some (.ends t.calls ending)) :
    Translated p oracle (.code j :: parts) u after (some (.ends s.calls ending)) := by
  rw [alike.calls] at moved
  exact Performs.ends moved rfl

theorem compute_neg (a b : Number) : Arith.neg.compute? a b = none := by
  cases a <;> cases b <;> rfl

theorem compute_kind (applied : op.compute? a b = some (.ok value)) : value.kind = a.kind := by
  cases a with
  | int x =>
    cases b with
    | int y =>
      simp only [Arith.compute?] at applied
      split at applied
      · cases applied
        rfl
      · obtain ⟨done,-,same⟩ := Option.map_eq_some_iff.mp applied
        cases done with
        | error ending => cases same
        | ok z =>
          cases same
          rfl
    | long y => cases applied
  | long x =>
    cases b with
    | int y =>
      obtain ⟨z,-,same⟩ := Option.map_eq_some_iff.mp applied
      cases same
      rfl
    | long y =>
      obtain ⟨done,-,same⟩ := Option.map_eq_some_iff.mp applied
      cases done with
      | error ending => cases same
      | ok z =>
        cases same
        rfl

theorem execute_arith (applied : op.compute? a b = some outcome) :
    execute? oracle ((t.push a).push b) (.arith op a.kind) = match outcome with
      | .ok value => some (.next (t.push value))
      | .error ending => some (.ends t.calls ending) := by
  cases op with
  | neg =>
    rw [compute_neg] at applied
    cases applied
  | _ =>
    simp only [execute?,StackMachine.State.push,applied]
    cases outcome <;> rfl

theorem translated_arith (enough : p.slots.ins ≤ p.slots.registers) (alike : Alike p.slots none s t)
    (known : type.kind? = some a.kind) (applied : op.compute? a b = some outcome) :
    Translated p oracle [.code (.arith op a.kind),.write dest type] ((t.push a).push b) none (s.finish? dest outcome) := by
  cases outcome with
  | error ending => exact translated_ends alike (execute_arith applied)
  | ok value =>
    have same : type.kind? = some value.kind := by rw [known,compute_kind applied]
    exact Performs.code (execute_arith applied) (translated_write enough alike same)

theorem execute_test {target : Label} (test : TestOp) (x y : BitVec 32) :
    execute? oracle ((t.push (.int x)).push (.int y)) (.jump (.ints test.comparison) target) =
      some (t.branch (test.holds x y) target) :=
  congrArg (fun taken => some (t.branch taken target)) (comparison_holds test x y)

theorem execute_testZero {target : Label} (test : TestOp) (x : BitVec 32) :
    execute? oracle (t.push (.int x)) (.jump (.zero test.comparison) target) = some (t.branch (test.holds x 0) target) :=
  congrArg (fun taken => some (t.branch taken target)) (comparison_holds test x 0)

theorem xor_ones {n : Nat} (a : BitVec n) : a ^^^ -1#n = ~~~a := by
  rw [BitVec.neg_one_eq_allOnes,BitVec.xor_allOnes]

-- A table without cases is spelled as a lookup.
theorem execute_switch (x : BitVec 32) (firstKey : Int32) (targets : List Label) (next : Label) :
    execute? oracle (t.push (.int x)) (switchInsn firstKey targets next) =
      some (t.branch true (tableCase x firstKey.toBitVec targets next)) := by
  cases targets with
  | nil =>
    have same : tableCase x firstKey.toBitVec [] next = next := by simp [tableCase]
    rw [same]
    rfl
  | cons first rest => rfl

theorem execute_unary {op : UnaryOp} {from_ into : Kind} (operand : op.operand.kind? = some from_)
    (given : op.result.kind? = some into) (applied : op.compute? a = some value) :
    executeAll? oracle (unaryInsns op from_ into) (t.push a) = some (.next (t.push value)) ∧ value.kind = into := by
  cases op <;> cases operand <;> cases given <;> cases a <;> cases applied
  case notInt x => exact ⟨congrArg (fun y => some (Move.next (t.push (.int y)))) (xor_ones x),rfl⟩
  case notLong x => exact ⟨congrArg (fun y => some (Move.next (t.push (.long y)))) (xor_ones x),rfl⟩
  all_goals exact ⟨rfl,rfl⟩

theorem behind_drop {registers left : List Nat} (used : RegisterMachine.State.behind? r value registers = some left) :
    left = registers.drop (value.words - 1) := by
  unfold RegisterMachine.State.behind? at used
  split at used
  · cases used
    rfl
  · split at used
    · cases used
      rfl
    · cases used
  · cases used

theorem slots_words (known : type.kind? = some value.kind) : type.slots = value.words := by
  rw [(slots_of_kind known).1]
  cases value <;> rfl

theorem arguments_typed {types : List Descriptor} {registers : List Nat} {args : List Number}
    (given : s.arguments? types registers = some args) : OfTypes args types := by
  induction types generalizing registers args with
  | nil =>
    cases registers with
    | nil =>
      cases given
      rfl
    | cons r registers => cases given
  | cons type types ih =>
    cases registers with
    | nil => cases given
    | cons r registers =>
      obtain ⟨value,read,given⟩ := Option.bind_eq_some_iff.mp given
      obtain ⟨left,-,given⟩ := Option.bind_eq_some_iff.mp given
      obtain ⟨others,rest,same⟩ := Option.bind_eq_some_iff.mp given
      cases same
      obtain ⟨kind,known,read⟩ := Option.bind_eq_some_iff.mp read
      rw [OfTypes,List.map_cons,List.map_cons,known,Registers.read_kind read,ih rest]

theorem translated_arguments {types : List Descriptor} {registers : List Nat} {next : Nat} {reads : List (Nat × Descriptor)}
    {args : List Number} (mirrors : Mirrors p.slots s.registers t.locals)
    (found : arguments? registers types next = some reads) (given : s.arguments? types (registers.drop next) = some args)
    (rest : Translated p oracle parts { t with stack := args.reverse ++ t.stack } after move) :
    Translated p oracle (readParts reads ++ parts) t after move := by
  induction types generalizing next reads args t with
  | nil =>
    unfold arguments? at found
    split at found
    · cases found
      rename_i all
      rw [all,List.drop_length] at given
      cases given
      exact rest
    · cases found
  | cons type types ih =>
    unfold arguments? at found
    split at found
    · rename_i r others here more
      cases found
      obtain ⟨inside,rfl⟩ := List.getElem?_eq_some_iff.mp here
      rw [List.drop_eq_getElem_cons inside] at given
      obtain ⟨value,read,given⟩ := Option.bind_eq_some_iff.mp given
      obtain ⟨left,used,given⟩ := Option.bind_eq_some_iff.mp given
      obtain ⟨values,read',same⟩ := Option.bind_eq_some_iff.mp given
      cases same
      -- A value takes as many registers as its type.
      have behind : left = registers.drop (next + type.slots) := by
        obtain ⟨kind,known,got⟩ := Option.bind_eq_some_iff.mp read
        rw [behind_drop used,List.drop_drop,slots_words (known.trans (congrArg some (Registers.read_kind got).symm))]
        cases value <;> rfl
      subst behind
      refine translated_read mirrors read (ih mirrors more read' ?_)
      simpa [StackMachine.State.push] using rest
    · cases found

theorem execute_invoke {signature : MethodDescriptor} {args : List Number} {result : Option Number} (method : MemberRef)
    (parses : MethodDescriptor.parse? method.desc = some signature)
    (typed : OfTypes args signature.args)
    (answer : oracle.answer? signature.result (t.calls ++ [⟨method,args⟩]) = some result) :
    execute? oracle { t with stack := args.reverse ++ t.stack } (.invoke .static method) =
      some (.next { t with calls := t.calls ++ [⟨method,args⟩], stack := result.toList ++ t.stack }) := by
  have size : signature.args.length = args.reverse.length := by
    simpa using (congrArg List.length typed).symm
  have popped : StackMachine.State.popAll? { t with stack := args.reverse ++ t.stack } signature.args = some (args,t) := by
    simp only [StackMachine.State.popAll?,size,List.take_left,List.drop_left,List.reverse_reverse,typed,if_true]
  simp [execute?,parses,popped,answer]

theorem answer_leaves {calls : List Call} {result : Option Number} (answer : oracle.answer? type calls = some result) :
    Leaves (if type = .void then none else some type) result result.toList := by
  unfold Oracle.answer? at answer
  split at answer
  · rename_i none
    cases answer
    have void : type = .void := by cases type <;> first | rfl | cases none
    simp [Leaves,void]
  · rename_i known
    cases answer
    rw [if_neg (by rintro rfl; cases known)]
    exact ⟨_,rfl,rfl,known⟩
  · rename_i known
    cases answer
    rw [if_neg (by rintro rfl; cases known)]
    exact ⟨_,rfl,rfl,known⟩
  · cases answer

theorem translated_invoke {registers : List Nat} {m : MethodReference} {reads : List (Nat × Descriptor)}
    (parses : MethodDescriptor.parse? m.signature.text = some m.signature)
    (found : arguments? registers m.signature.args 0 = some reads) (alike : Alike p.slots none s t) :
    Translated p oracle (readParts reads ++ [.code (.invoke .static (memberOf m))]) t (resultLeft m)
      (RegisterMachine.execute? oracle returns s (.invoke .static registers m)) := by
  refine translated_bind ?_
  intro args given
  refine translated_bind ?_
  intro result answer
  rw [← alike.calls] at answer
  refine translated_arguments alike.mirrors found given (Performs.last ?_)
  rw [execute_invoke (memberOf m) parses (arguments_typed given) answer]
  refine ⟨_,rfl,alike.mirrors,congrArg (· ++ _) alike.calls,?_⟩
  have clear : t.stack = [] := alike.stack
  simpa [clear,resultLeft] using answer_leaves answer

theorem template_answers (enough : p.slots.ins ≤ p.slots.registers) (integral : i.isIntegral = true) (regular : i.Regular)
    (template : Template returns i pending parts after) (alike : Alike p.slots pending s t) :
    Translated p oracle parts t after (RegisterMachine.execute? oracle returns s i) := by
  cases template with
  | nop => exact Performs.nil ⟨t,rfl,alike.mirrors,alike.calls,alike.stack⟩
  | @move kind dest source =>
    refine translated_bind ?_
    intro held known
    refine translated_bind ?_
    intro value got
    have same : held = openKind (decide (kind = .wide)) := by cases kind <;> cases known <;> rfl
    subst same
    exact translated_written alike fun rest => Performs.copy enough alike.mirrors got rest
  | @moveResult kind dest type =>
    obtain ⟨value,result,stack,known⟩ := alike.stack
    have taken : Alike p.slots none s { t with stack := [] } := ⟨alike.mirrors,alike.calls,rfl⟩
    have full : t = StackMachine.State.push { t with stack := [] } value := by rw [StackMachine.State.push,← stack]
    rw [full]
    refine translated_bind ?_
    intro found got
    rw [result] at got
    cases got
    split
    · exact translated_write enough taken known
    · exact translated_stuck
  | returnVoid =>
    simp only [RegisterMachine.execute?]
    split
    · exact translated_ends alike rfl
    · exact translated_stuck
  | @returnValue kind source left known =>
    refine translated_bind ?_
    intro value got
    split
    · refine translated_read alike.mirrors got (translated_ends alike ?_)
      have same : value.kind = left := read_kind got known
      simp [execute?,StackMachine.State.pop?,StackMachine.State.push,same]
    · exact translated_stuck
  | const => exact translated_written alike fun rest => Performs.bits enough alike.mirrors rfl rfl rest
  | constWide => exact translated_written alike fun rest => Performs.bits enough alike.mirrors rfl rfl rest
  | goto => exact translated_branch alike rfl
  | packedSwitch =>
    refine translated_bind ?_
    intro x got
    exact translated_read alike.mirrors (read_int got) (translated_branch alike (execute_switch ..))
  | sparseSwitch =>
    refine translated_bind ?_
    intro x got
    exact translated_read alike.mirrors (read_int got) (translated_branch alike rfl)
  | @compare op dest left right =>
    obtain rfl := of_decide_eq_true integral
    refine translated_bind ?_
    intro a first
    refine translated_bind ?_
    intro b second
    refine translated_read alike.mirrors (read_long first) (translated_read alike.mirrors (read_long second) ?_)
    exact Performs.code rfl (translated_write enough alike rfl)
  | test =>
    refine translated_bind ?_
    intro a first
    refine translated_bind ?_
    intro b second
    refine translated_read alike.mirrors (read_int first) (translated_read alike.mirrors (read_int second) ?_)
    exact translated_branch alike (execute_test ..)
  | testReference reference => exact translated_reference reference
  | testOpen =>
    refine translated_bind ?_
    intro a first
    refine translated_bind ?_
    intro b second
    refine Performs.look alike.mirrors (read_int first) (Performs.look alike.mirrors (read_int second) ?_)
    exact translated_branch alike (execute_test ..)
  | testZero =>
    refine translated_bind ?_
    intro a got
    exact translated_read alike.mirrors (read_int got) (translated_branch alike (execute_testZero ..))
  | testNull reference => exact translated_reference reference
  | testZeroOpen =>
    refine translated_bind ?_
    intro a got
    exact Performs.look alike.mirrors (read_int got) (translated_branch alike (execute_testZero ..))
  | invokeStatic found => exact translated_invoke regular found alike
  | invoke other =>
    simp only [Instruction.isIntegral,Bool.and_eq_true,decide_eq_true_eq] at integral
    exact absurd integral.1.1 other
  | unary operand given =>
    refine translated_bind ?_
    intro a got
    refine translated_bind ?_
    intro value applied
    obtain ⟨moved,same⟩ := execute_unary operand given applied
    refine translated_read alike.mirrors got (Performs.codes moved (translated_write enough alike ?_))
    rw [given,same]
  | binary known =>
    refine translated_bind ?_
    intro a first
    refine translated_bind ?_
    intro b second
    refine translated_bind ?_
    intro outcome applied
    refine translated_read alike.mirrors first (translated_read alike.mirrors second ?_)
    obtain rfl := read_kind first known
    exact translated_arith enough alike known applied
  | binaryLiteral =>
    refine translated_bind ?_
    intro a got
    refine translated_bind ?_
    intro outcome applied
    refine translated_read alike.mirrors (read_int got) (Performs.code rfl ?_)
    exact translated_arith enough alike rfl applied
  | reverseSubtract =>
    refine translated_bind ?_
    intro a got
    refine Performs.code rfl (translated_read alike.mirrors (read_int got) ?_)
    exact Performs.code rfl (translated_write enough alike rfl)
  | _ => exact absurd integral Bool.false_ne_true

end Restack
