import Mathlib
import Restack.Code
import Restack.Proofs.Draft.Outline

namespace Restack

-- The depth of the operand stack, counted in words: what each instruction takes
-- and leaves, the ordinary edges of a body, and what it means that one depth per
-- event fits them all.

def Kind.words (kind : Kind) : Nat := if kind.isWide then 2 else 1

def Constant.words : Constant → Nat
  | .long _ | .double _ => 2
  | _ => 1

def Condition.operands : Condition → Nat
  | .always => 0
  | .zero _ | .null | .nonNull => 1
  | .ints _ | .sameReference | .otherReference => 2

structure Effect where
  pops : Nat
  pushes : Nat
deriving DecidableEq

def Arith.effect (kind : Kind) : Arith → Effect
  | .neg => ⟨kind.words,kind.words⟩
  | .shl | .shr | .ushr => ⟨kind.words + 1,kind.words⟩
  | _ => ⟨kind.words + kind.words,kind.words⟩

-- Members are known by their descriptors, which have to be well formed.
def Insn.effect? : Insn → Option Effect
  | .const value => some ⟨0,value.words⟩
  | .load kind _ => some ⟨0,kind.words⟩
  | .store kind _ => some ⟨kind.words,0⟩
  | .arrayLoad kind => some ⟨2,kind.valueKind.words⟩
  | .arrayStore kind => some ⟨2 + kind.valueKind.words,0⟩
  | .pop => some ⟨1,0⟩
  | .pop2 => some ⟨2,0⟩
  | .dup => some ⟨1,2⟩
  | .arith op kind => some (op.effect kind)
  | .convert source target => some ⟨source.words,target.words⟩
  | .narrow _ => some ⟨1,1⟩
  | .compareLong | .compareDouble _ => some ⟨4,1⟩
  | .compareFloat _ => some ⟨2,1⟩
  | .jump condition _ => some ⟨condition.operands,0⟩
  | .tableSwitch .. | .lookupSwitch .. => some ⟨1,0⟩
  | .leave kind => some ⟨(kind.map Kind.words).getD 0,0⟩
  | .getStatic field => (Descriptor.parse? field.desc).map fun type => ⟨0,type.slots⟩
  | .putStatic field => (Descriptor.parse? field.desc).map fun type => ⟨type.slots,0⟩
  | .getField field => (Descriptor.parse? field.desc).map fun type => ⟨1,type.slots⟩
  | .putField field => (Descriptor.parse? field.desc).map fun type => ⟨1 + type.slots,0⟩
  | .invoke dispatch method =>
    (MethodDescriptor.parse? method.desc).map fun signature =>
      ⟨(if dispatch = .static then 0 else 1) + signature.argSlots,signature.result.slots⟩
  | .new _ => some ⟨0,1⟩
  | .newArray _ | .arrayLength | .checkCast _ | .instanceOf _ => some ⟨1,1⟩
  | .throwTop | .monitorEnter | .monitorExit => some ⟨1,0⟩

def Insn.after? (i : Insn) (depth : Nat) : Option Nat :=
  i.effect?.bind fun effect =>
    if effect.pops ≤ depth then some (depth - effect.pops + effect.pushes) else none

def Insn.targets : Insn → List Label
  | .jump _ target => [target]
  | .tableSwitch _ fallback targets => fallback :: targets
  | .lookupSwitch fallback pairs => fallback :: pairs.map Prod.snd
  | _ => []

namespace Event

def after? : Event → Nat → Option Nat
  | .label _, depth => some depth
  | .insn i, depth => i.after? depth

def isTerminal : Event → Bool
  | .label _ => false
  | .insn i => i.isTerminal

end Event

namespace Code

inductive Edge (code : Code) : Nat → Nat → Prop where
  | falls {k : Nat} {event : Event} : code.events[k]? = some event → event.isTerminal = false →
      k + 1 < code.events.length → Edge code k (k + 1)
  | jumps {k j : Nat} {i : Insn} {target : Label} : code.events[k]? = some (.insn i) → target ∈ i.targets →
      code.position? target = some j → Edge code k j

def HandlerAt (code : Code) (k : Nat) : Prop := ∃ block ∈ code.tryBlocks, code.events[k]? = some (.label block.handler)

-- One depth per event that every ordinary edge agrees with. A handler starts with
-- the exception alone.
structure Balanced (code : Code) (depth : Nat → Nat) : Prop where
  entry : depth 0 = 0
  handlers : ∀ k, code.HandlerAt k → depth k = 1
  runs : ∀ k event, code.events[k]? = some event →
    ∃ after, event.after? (depth k) = some after ∧ ∀ j, code.Edge k j → depth j = after

-- The same, but for ordinary edges into handlers: those come with an empty stack.
structure Levelled (code : Code) (depth : Nat → Nat) : Prop where
  entry : ¬code.HandlerAt 0 → depth 0 = 0
  handlers : ∀ k, code.HandlerAt k → depth k = 1
  runs : ∀ k event, code.events[k]? = some event →
    ∃ after, event.after? (depth k) = some after ∧
      ∀ j, code.Edge k j → (code.HandlerAt j → after = 0) ∧ (¬code.HandlerAt j → depth j = after)

theorem Edge.source {code : Code} {k j : Nat} (edge : code.Edge k j) : ∃ event, code.events[k]? = some event := by
  cases edge with
  | falls here _ _ => exact ⟨_,here⟩
  | jumps here _ _ => exact ⟨_,here⟩

theorem Balanced.falls {code : Code} {depth : Nat → Nat} {k : Nat} {event : Event} (balanced : code.Balanced depth)
    (here : code.events[k]? = some event) (goes : event.isTerminal = false) (inside : k + 1 < code.events.length) :
    event.after? (depth k) = some (depth (k + 1)) := by
  obtain ⟨after,moves,reached⟩ := balanced.runs k event here
  rw [moves,reached (k + 1) (.falls here goes inside)]

-- Code without a jump or an end from the start on has one depth only.
theorem Balanced.straight {code : Code} {depth : Nat → Nat} {rest : List Event} (balanced : code.Balanced depth)
    (first : List Event) (whole : code.events = first ++ rest) (goes : ∀ event ∈ first, event.isTerminal = false) (more : rest ≠ []) :
    first.foldlM (fun now event => Event.after? event now) 0 = some (depth first.length) := by
  induction first using List.reverseRecOn generalizing rest with
  | nil => exact congrArg some balanced.entry.symm
  | append_singleton first event ih =>
    have same : code.events = first ++ event :: rest := by simp [whole]
    have before := ih same (fun other member => goes other (by simp [member])) (by simp)
    have here : code.events[first.length]? = some event := by simp [whole]
    have inside : first.length + 1 < code.events.length := by
      have left := List.length_pos_iff.mpr more
      simp only [whole,List.length_append,List.length_singleton]
      omega
    rw [List.foldlM_append,before,List.length_append]
    simp [balanced.falls here (goes event (by simp)) inside]

theorem Levelled.balanced_iff {code : Code} {depth : Nat → Nat} (levelled : code.Levelled depth) :
    code.Balanced depth ↔ ¬code.HandlerAt 0 ∧ ∀ k j, code.Edge k j → ¬code.HandlerAt j := by
  constructor
  · intro balanced
    constructor
    · intro handler
      have one := levelled.handlers 0 handler
      have zero := balanced.entry
      omega
    · intro k j edge handler
      obtain ⟨event,here⟩ := edge.source
      obtain ⟨after,moves,reached⟩ := levelled.runs k event here
      obtain ⟨after',moves',reached'⟩ := balanced.runs k event here
      rw [moves] at moves'
      cases moves'
      have empty := (reached j edge).1 handler
      have one := levelled.handlers j handler
      have same := reached' j edge
      omega
  · rintro ⟨start,apart⟩
    refine ⟨levelled.entry start,levelled.handlers,?_⟩
    intro k event here
    obtain ⟨after,moves,reached⟩ := levelled.runs k event here
    exact ⟨after,moves,fun j edge => (reached j edge).2 (apart k j edge)⟩

end Code

-- A pass over the events from the first to the last. What is left on the stack is
-- known at each event; where paths meet it is nothing.
inductive Checked (caught : Label → Bool) (joins : Label → Prop) : Nat → List Event → Nat → Prop where
  | nil {depth : Nat} : Checked caught joins depth [] depth
  | label {depth last : Nat} {label : Label} {rest : List Event} : (caught label = true ∨ joins label → depth = 0) →
      Checked caught joins (if caught label then 1 else depth) rest last →
      Checked caught joins depth (.label label :: rest) last
  | insn {depth after last : Nat} {i : Insn} {rest : List Event} : i.after? depth = some after →
      (∀ target ∈ i.targets, after = 0 ∧ joins target) →
      Checked caught joins (if i.isTerminal then 0 else after) rest last →
      Checked caught joins depth (.insn i :: rest) last

namespace Checked

variable {caught : Label → Bool} {joins : Label → Prop} {depth middle last after k : Nat} {left right events : List Event}
  {event : Event} {i : Insn} {label : Label}

theorem append (first : Checked caught joins depth left middle) (second : Checked caught joins middle right last) :
    Checked caught joins depth (left ++ right) last := by
  induction first with
  | nil => exact second
  | label empty _ ih => exact .label empty (ih second)
  | insn moves targets _ ih => exact .insn moves targets (ih second)

theorem step (after : Nat) (moves : i.after? depth = some after) (targets : i.targets = []) (goes : i.isTerminal = false)
    (rest : Checked caught joins after events last) : Checked caught joins depth (.insn i :: events) last := by
  refine .insn moves (by simp [targets]) ?_
  rw [goes]
  exact rest

theorem plain (moves : i.after? depth = some last) (targets : i.targets = []) (goes : i.isTerminal = false) :
    Checked caught joins depth [.insn i] last := .step last moves targets goes .nil

def pass (caught : Label → Bool) (depth : Nat) : Event → Nat
  | .label label => if caught label then 1 else depth
  | .insn i => if i.isTerminal then 0 else (i.after? depth).getD 0

def flow (caught : Label → Bool) (depth : Nat) (events : List Event) (k : Nat) : Nat :=
  (events.take k).foldl (pass caught) depth

theorem flow_succ (here : events[k]? = some event) :
    flow caught depth events (k + 1) = pass caught (flow caught depth events k) event := by
  simp [flow,List.take_add_one,here]

theorem label_at (checked : Checked caught joins depth events last) (here : events[k]? = some (.label label)) :
    caught label = true ∨ joins label → flow caught depth events k = 0 := by
  induction checked generalizing k with
  | nil => simp at here
  | label empty _ ih =>
    cases k with
    | zero =>
      cases here
      exact empty
    | succ k => simpa [flow,pass] using ih (by simpa using here)
  | @insn depth after last i rest moves targets _ ih =>
    cases k with
    | zero => cases here
    | succ k => simpa [flow,pass,moves] using ih (by simpa using here)

theorem insn_at (checked : Checked caught joins depth events last) (here : events[k]? = some (.insn i)) :
    ∃ after, i.after? (flow caught depth events k) = some after ∧ ∀ target ∈ i.targets, after = 0 ∧ joins target := by
  induction checked generalizing k with
  | nil => simp at here
  | label empty _ ih =>
    cases k with
    | zero => cases here
    | succ k => simpa [flow,pass] using ih (by simpa using here)
  | @insn depth after last i rest moves targets _ ih =>
    cases k with
    | zero =>
      cases here
      exact ⟨after,moves,targets⟩
    | succ k => simpa [flow,pass,moves] using ih (by simpa using here)

-- Types do not matter for the depth.

theorem effect_untyped (i : Insn) : i.untyped.effect? = i.effect? := by
  cases i with
  | const value => cases value <;> rfl
  | load kind slot => cases kind <;> rfl
  | store kind slot => cases kind <;> rfl
  | jump condition target => cases condition <;> rfl
  | _ => rfl

theorem targets_untyped (i : Insn) : i.untyped.targets = i.targets := by cases i <;> rfl

theorem terminal_untyped (i : Insn) : i.untyped.isTerminal = i.isTerminal := by
  cases i with
  | jump condition target => cases condition <;> rfl
  | _ => rfl

theorem untyped_iff : Checked caught joins depth (events.map Event.untyped) last ↔ Checked caught joins depth events last := by
  induction events generalizing depth with
  | nil => rfl
  | cons event events ih =>
    cases event with
    | label label =>
      constructor
      · rintro (_ | ⟨empty,rest⟩)
        exact .label empty (ih.mp rest)
      · rintro (_ | ⟨empty,rest⟩)
        exact .label empty (ih.mpr rest)
    | insn i =>
      have moves : i.untyped.after? = i.after? := by
        funext depth
        simp only [Insn.after?,effect_untyped]
      constructor
      · rintro (_ | _ | ⟨moved,targets,rest⟩)
        rw [moves] at moved
        rw [targets_untyped] at targets
        rw [terminal_untyped] at rest
        exact .insn moved targets (ih.mp rest)
      · rintro (_ | _ | ⟨moved,targets,rest⟩)
        refine .insn (moves ▸ moved) (targets_untyped i ▸ targets) ?_
        rw [terminal_untyped]
        exact ih.mpr rest

-- A handler has the exception, whatever the pass brought to it.
def depthAt (caught : Label → Bool) (events : List Event) (k : Nat) : Nat :=
  match events[k]? with
  | some (.label label) => if caught label then 1 else flow caught 0 events k
  | _ => flow caught 0 events k

theorem depthAt_label (here : events[k]? = some (.label label)) :
    depthAt caught events k = flow caught 0 events (k + 1) := by
  simp [depthAt,flow_succ here,here,pass]

theorem depthAt_insn (here : events[k]? = some (.insn i)) : depthAt caught events k = flow caught 0 events k := by
  simp [depthAt,here]

theorem levelled {code : Code} (checked : Checked caught joins 0 code.events last)
    (handlers : ∀ label, caught label = true ↔ ∃ block ∈ code.tryBlocks, block.handler = label) :
    code.Levelled (depthAt caught code.events) := by
  have isHandler : ∀ k, code.HandlerAt k ↔ ∃ label, code.events[k]? = some (.label label) ∧ caught label = true := by
    intro k
    constructor
    · rintro ⟨block,member,here⟩
      exact ⟨block.handler,here,(handlers _).mpr ⟨block,member,rfl⟩⟩
    · rintro ⟨label,here,found⟩
      obtain ⟨block,member,rfl⟩ := (handlers label).mp found
      exact ⟨block,member,here⟩
  have ordinary : ∀ k, ¬code.HandlerAt k → depthAt caught code.events k = flow caught 0 code.events k := by
    intro k other
    unfold depthAt
    split
    · rename_i label here
      have free : caught label = false := Bool.eq_false_iff.mpr fun found => other ((isHandler k).mpr ⟨label,here,found⟩)
      simp [free]
    · rfl
  -- What reaches a handler from above is nothing.
  have above : ∀ k, code.HandlerAt k → flow caught 0 code.events k = 0 := by
    intro k handler
    obtain ⟨label,here,found⟩ := (isHandler k).mp handler
    exact checked.label_at here (.inl found)
  refine ⟨fun start => by rw [ordinary 0 start]; rfl,?_,?_⟩
  · intro k handler
    obtain ⟨label,here,found⟩ := (isHandler k).mp handler
    simp [depthAt,here,found]
  · intro k event here
    cases event with
    | label label =>
      refine ⟨_,rfl,?_⟩
      rw [depthAt_label here]
      intro j edge
      cases edge with
      | falls _ _ _ => exact ⟨above _,ordinary _⟩
      | jumps insn _ _ =>
        rw [here] at insn
        cases insn
    | insn i =>
      obtain ⟨after,moves,targets⟩ := checked.insn_at here
      refine ⟨after,by rw [depthAt_insn here]; exact moves,?_⟩
      intro j edge
      cases edge with
      | falls same goes _ =>
        rw [here] at same
        cases same
        have next : flow caught 0 code.events (k + 1) = after := by
          simp [flow_succ here,pass,show i.isTerminal = false from goes,moves]
        exact ⟨fun handler => next.symm.trans (above _ handler),fun other => (ordinary _ other).trans next⟩
      | @jumps _ _ target same member placed =>
        rw [here] at same
        cases same
        obtain ⟨rfl,joined⟩ := targets target member
        refine ⟨fun _ => rfl,fun other => ?_⟩
        have there : code.events[j]? = some (.label target) := by
          obtain ⟨inside,found,-⟩ := List.findIdx?_eq_some_iff_getElem.mp placed
          simpa [List.getElem?_eq_getElem inside] using found
        rw [ordinary j other]
        exact checked.label_at there (.inr joined)

end Checked

end Restack
