import Mathlib
import Restack.Lowering.Body
import Restack.Proofs.Outcome

namespace Restack.Lowering

-- Invariants of lowering. What the transfers between registers and the stack keep, and what arriving
-- at a label keeps, is kept by every instruction, by every item of a body, and so all the way.

variable {p : Plan} {I : State → Prop} {R S T : State → State → Prop} {f g : State → Except Fault State} {s t : State}

-- Control arrives at a label first or after others, and a label is entered from above, from elsewhere or both.

theorem arrive_ok {label : Label} {arrival : Arrival} : s.arrive label arrival = .ok t ↔
    s.joins.get? label.number = none ∧ t = { s with joins := NatMap.insert label.number s.frame s.joins } ∨
      ∃ stored joined d, s.joins.get? label.number = some stored ∧ stored.merge s.frame arrival s.draft = .ok (joined,d) ∧
        t = { s with draft := d, joins := NatMap.insert label.number joined s.joins } := by
  unfold State.arrive
  constructor
  · intro done
    split at done
    · rename_i absent
      cases done
      exact .inl ⟨absent,rfl⟩
    · rename_i stored found
      simp only [bind_eq_ok,pure_eq_ok] at done
      obtain ⟨⟨joined,d⟩,merged,rfl⟩ := done
      exact .inr ⟨stored,joined,d,found,merged,rfl⟩
  · rintro (⟨absent,rfl⟩ | ⟨stored,joined,d,found,merged,rfl⟩)
    · rw [absent]
    · simp only [found,merged]
      rfl

theorem enterLabel_ok {label : Label} {isTarget : Bool} : enterLabel label isTarget s = .ok t ↔
    (∃ stored, s.joins.get? label.number = some stored ∧ s.terminal = true ∧ t = { s with frame := stored }) ∨
      (∃ stored joined d, s.joins.get? label.number = some stored ∧ s.terminal = false ∧
        stored.merge s.frame .branch s.draft = .ok (joined,d) ∧
        t = { s with draft := d, frame := joined, joins := NatMap.insert label.number joined s.joins }) ∨
      s.joins.get? label.number = none ∧
        t = if isTarget then { s with joins := NatMap.insert label.number s.frame s.joins } else s := by
  unfold enterLabel
  constructor
  · intro done
    split at done
    · rename_i stored found
      split at done
      · rename_i terminal
        cases done
        exact .inl ⟨stored,found,terminal,rfl⟩
      · rename_i falls
        simp only [bind_eq_ok,pure_eq_ok] at done
        obtain ⟨⟨joined,d⟩,merged,rfl⟩ := done
        exact .inr (.inl ⟨stored,joined,d,found,by simpa using falls,merged,rfl⟩)
    · rename_i absent
      cases done
      exact .inr (.inr ⟨absent,rfl⟩)
  · rintro (⟨stored,found,terminal,rfl⟩ | ⟨stored,joined,d,found,falls,merged,rfl⟩ | ⟨absent,rfl⟩)
    · simp only [found,terminal,if_true]
    · simp only [found,falls,Bool.false_eq_true,if_false,merged]
      rfl
    · rw [absent]

def Maintains (I : State → Prop) (f : State → Except Fault State) : Prop := ∀ s t, I s → f s = .ok t → I t

-- Two runs side by side: from states that `R` relates, where the first run goes on, so does the second, to states that `S`
-- relates. An invariant is the case of a run beside itself.
def Respects (R S : State → State → Prop) (f : State → Except Fault State) : Prop :=
  ∀ s t m, R s t → f s = .ok m → ∃ n, f t = .ok n ∧ S m n

def RespectsWith (R : State → State → Prop) (S : α → State → State → Prop) (f : State → Except Fault (α × State)) : Prop :=
  ∀ s t a m, R s t → f s = .ok (a,m) → ∃ n, f t = .ok (a,n) ∧ S a m n

def Itself (I : State → Prop) (s t : State) : Prop := s = t ∧ I s

theorem itself_respects : Respects (Itself I) (Itself I) f ↔ Maintains I f := by
  constructor
  · intro respects s t holds done
    obtain ⟨_,-,rfl,after⟩ := respects s s t ⟨rfl,holds⟩ done
    exact after
  · rintro maintains s _ m ⟨rfl,holds⟩ done
    exact ⟨m,done,rfl,maintains s m holds done⟩

namespace Respects

theorem weaken (imp : ∀ s t, R s t → S s t) (rest : Respects S T f) : Respects R T f :=
  fun s t m related done => rest s t m (imp s t related) done

theorem refused (cause : Inexpressible) : Respects R S fun _ => refuse cause := by
  intro s t m _ done
  simp at done

-- A change that cannot fail.
theorem after {c : State → State} (change : ∀ s t, R s t → S (c s) (c t)) (rest : Respects S T f) : Respects R T fun s => f (c s) :=
  fun s t m related done => rest (c s) (c t) m (change s t related) done

theorem done {c : State → State} (change : ∀ s t, R s t → S (c s) (c t)) : Respects R S fun s => .ok (c s) := by
  rintro s t _ related ⟨⟩
  exact ⟨c t,rfl,change s t related⟩

theorem same : Respects R R fun s => .ok s := done fun _ _ related => related

theorem andThen (first : Respects R S f) (second : Respects S T g) : Respects R T fun s => f s >>= g := by
  intro s t m related done
  simp only [bind_eq_ok] at done ⊢
  obtain ⟨u,one,two⟩ := done
  obtain ⟨v,one,between⟩ := first s t u related one
  obtain ⟨n,two,after⟩ := second u v m between two
  exact ⟨n,⟨v,one,two⟩,after⟩

theorem told {h : State → Except Fault (α × State)} {k : α → State → Except Fault State} {M : α → State → State → Prop}
    (first : RespectsWith R M h) (rest : ∀ a, Respects (M a) S (k a)) : Respects R S fun s => h s >>= fun x => k x.1 x.2 := by
  intro s t m related done
  simp only [bind_eq_ok] at done ⊢
  obtain ⟨⟨a,u⟩,one,two⟩ := done
  obtain ⟨v,one,between⟩ := first s t a u related one
  obtain ⟨n,two,after⟩ := rest a u v m between two
  exact ⟨n,⟨(a,v),one,two⟩,after⟩

-- Reading what both states agree on.
theorem looked {x : State → Except Fault α} {h : α → State → Except Fault State} (alike : ∀ s t, R s t → x s = x t)
    (rest : ∀ a, Respects (fun s t => R s t ∧ x s = .ok a) S (h a)) : Respects R S fun s => x s >>= fun a => h a s := by
  intro s t m related done
  simp only [bind_eq_ok,← alike s t related] at done ⊢
  obtain ⟨a,known,done⟩ := done
  obtain ⟨n,done,after⟩ := rest a s t m ⟨related,known⟩ done
  exact ⟨n,⟨a,known,done⟩,after⟩

theorem given {x : Except Fault α} {h : α → State → Except Fault State} (rest : ∀ a, Respects R S (h a)) :
    Respects R S fun s => x >>= fun a => h a s :=
  looked (x := fun _ => x) (fun _ _ _ => rfl) fun a => (rest a).weaken fun _ _ both => both.1

theorem ite {c : Prop} [Decidable c] (yes : Respects R S f) (no : Respects R S g) : Respects R S fun s => if c then f s else g s := by
  by_cases holds : c
  · simpa only [if_pos holds] using yes
  · simpa only [if_neg holds] using no

theorem guarded {c : Prop} [Decidable c] {cause : Inexpressible} (rest : ¬c → Respects R S f) :
    Respects R S fun s => if c then refuse cause >>= fun _ : PUnit => f s else f s := by
  by_cases holds : c
  · intro s t m _ done
    simp [holds,bind_eq_ok] at done
  · simpa only [if_neg holds] using rest holds

end Respects

-- Instructions that may leave placeholders.
def mayWait : Instruction → Bool
  | .move .. | .const .. | .constWide .. | .test .. | .testZero .. => true
  | _ => false

-- What a relation has to do with the groups, the frame and the joins is said here once. The
-- instructions below are put together from these, those that leave no placeholders from fewer of them.
structure Calm (p : Plan) (R : State → State → Prop) : Prop where
  register : ∀ s t r, R s t → s.register r = t.register r
  waiting : ∀ s t, R s t → s.pending = t.pending
  emit : ∀ s t i, R s t → R (s.emit i) (t.emit i)
  pending : ∀ s t left, R s t → R { s with pending := left } { t with pending := left }
  load : ∀ r type, Respects R R (load p r type)
  store : ∀ r type, Respects R R (store p r type)
  arrive : ∀ label arrival, Respects R R fun s => s.arrive label arrival

structure Steady (p : Plan) (R : State → State → Prop) : Prop extends Calm p R where
  constant : ∀ r value wide, Respects R R (constant p r value wide)
  move : ∀ kind dest source, Respects R R (move p kind dest source)
  test : ∀ op left right target, Respects R R (test p op left right target)
  testZero : ∀ op r target, Respects R R (testZero p op r target)

namespace Calm

variable (calm : Calm p R)
include calm

theorem emitted (i : Insn) : Respects R R fun s => .ok (s.emit i) := .done fun s t related => calm.emit s t i related

theorem emitAll (insns : List Insn) (related : R s t) : R (s.emitAll insns) (t.emitAll insns) := by
  induction insns generalizing s t with
  | nil => exact related
  | cons i rest ih => exact ih (s := s.emit i) (t := t.emit i) (calm.emit s t i related)

theorem afterEmitAll (rest : Respects R R f) (insns : List Insn) : Respects R R fun s => f (s.emitAll insns) :=
  .after (fun _ _ related => calm.emitAll insns related) rest

theorem afterEmit (rest : Respects R R f) (i : Insn) : Respects R R fun s => f (s.emit i) := calm.afterEmitAll rest [i]

theorem discardPending (related : R s t) : R s.discardPending t.discardPending := by
  unfold State.discardPending
  rw [← calm.waiting s t related]
  split
  · exact related
  · exact calm.emit _ _ _ (calm.pending s t none related)

theorem arriveAll (labels : List Label) (arrival : Arrival) : Respects R R fun s => s.arriveAll labels arrival := by
  induction labels with
  | nil => exact .same
  | cons label rest ih => exact (calm.arrive label arrival).andThen ih

theorem jumpOn (condition : Condition) (target : Label) : Respects R R (jumpOn condition target) :=
  (calm.arrive target .branch).andThen (calm.emitted _)

theorem loadArguments (registers : List Nat) (missing : Inexpressible) (types : List Descriptor) (next : Nat) :
    RespectsWith R (fun _ => R) (loadArguments p registers missing types next) := by
  induction types generalizing next with
  | nil =>
    rintro s t a m related ⟨⟩
    exact ⟨t,rfl,related⟩
  | cons type rest ih =>
    intro s t a m related done
    unfold Lowering.loadArguments at done ⊢
    split at done
    · simp at done
    · rename_i r found
      simp only [bind_eq_ok] at done ⊢
      obtain ⟨u,loaded,done⟩ := done
      obtain ⟨v,loaded,between⟩ := calm.load r type s t u related loaded
      obtain ⟨n,done,after⟩ := ih _ u v a m between done
      exact ⟨n,⟨v,loaded,done⟩,after⟩

theorem loadReceiver (op : InvokeOp) (registers : List Nat) (missing : Inexpressible) (owner : Descriptor) :
    RespectsWith R (fun _ => R) (loadReceiver p op registers missing owner) := by
  intro s t a m related done
  unfold Lowering.loadReceiver at done ⊢
  split at done
  · rename_i none
    cases done
    exact ⟨t,if_pos none,related⟩
  · rename_i some
    rw [if_neg some]
    split at done
    · simp at done
    · rename_i r found
      simp only [bind_eq_ok,pure_eq_ok,Prod.mk.injEq] at done ⊢
      obtain ⟨u,loaded,rfl,rfl⟩ := done
      obtain ⟨v,loaded,after⟩ := calm.load r owner s t u related loaded
      exact ⟨v,⟨v,loaded,rfl,rfl⟩,after⟩

theorem invoke (op : InvokeOp) (registers : List Nat) (m : MethodReference) : Respects R R (invoke p op registers m) := by
  intro s t n related done
  simp only [Lowering.invoke,bind_eq_ok,guard_eq_ok,pure_eq_ok] at done ⊢
  obtain ⟨⟨next,u⟩,received,⟨last,v⟩,loaded,counted,rfl⟩ := done
  obtain ⟨u',received,related⟩ := calm.loadReceiver op registers _ m.owner s t next u related received
  obtain ⟨v',loaded,related⟩ := calm.loadArguments registers _ _ next u u' last v related loaded
  refine ⟨_,⟨_,received,_,loaded,counted,rfl⟩,?_⟩
  dsimp only
  split
  · exact calm.emit v v' _ related
  · exact calm.pending _ _ _ (calm.emit v v' _ related)

theorem fillElements (element : Descriptor) (kind : ArrayKind) (n : Nat) (registers : List Nat) :
    Respects R R (fillElements p element kind n registers) := by
  induction registers generalizing n with
  | nil => exact .same
  | cons r rest ih =>
    exact .andThen (calm.afterEmitAll (calm.load r element) _) (calm.afterEmit (ih (n + 1)) _)

theorem filledNewArray (registers : List Nat) (type : Descriptor) : Respects R R (filledNewArray p registers type) := by
  unfold Lowering.filledNewArray
  cases type.element? with
  | none => exact .refused _
  | some element =>
    have left : Respects R R fun s => .ok { s with pending := some type } := .done fun s t => calm.pending s t _
    exact .given fun kind => .andThen (calm.afterEmitAll (calm.fillElements element kind 0 registers) _) left

theorem storeData (r : Nat) (array element : Descriptor) (kind : ArrayKind) (n : Nat) (items : List Nat) :
    Respects R R (storeData p r array element kind n items) := by
  induction items generalizing n with
  | nil => exact .same
  | cons bits rest ih => exact .andThen (calm.load r array) (calm.afterEmitAll (ih (n + 1)) _)

theorem looked {r : Nat} {h : RegisterState → State → Except Fault State} (rest : ∀ state, Respects R R (h state)) :
    Respects R R fun s => s.register r >>= fun state => h state s :=
  .looked (fun s t => calm.register s t r) fun state => (rest state).weaken fun _ _ both => both.1

theorem fillArrayData (r : Nat) (data : ArrayData) : Respects R R (fillArrayData p r data) := by
  refine calm.looked fun state => ?_
  cases state with
  | typed type =>
    cases type with
    | array element =>
      dsimp only
      cases dataWidth? element with
      | none => exact .refused _
      | some width => exact .guarded fun _ => .given fun kind => calm.storeData r _ _ kind 0 _
    | _ => exact .refused _
  | _ => exact .refused _

theorem array {r : Nat} {op : AccessOp} {h : Descriptor × Descriptor → State → Except Fault State}
    (rest : ∀ types, Respects R R (h types)) : Respects R R fun s => arrayTypeOf r op s >>= fun types => h types s := by
  refine .looked ?_ fun types => (rest types).weaken fun _ _ both => both.1
  intro s t related
  simp only [arrayTypeOf,calm.register s t r related]

theorem taken {cause : Inexpressible} {h : Descriptor → State → Except Fault State} (rest : ∀ type, Respects R R (h type)) :
    Respects R R fun s => match takePending s with
      | none => refuse cause
      | some (type,s) => h type s := by
  intro s t m related done
  simp only [takePending,← calm.waiting s t related] at done ⊢
  cases known : s.pending with
  | none => simp [known] at done
  | some type =>
    simp only [known,Option.map_some] at done ⊢
    exact rest type _ _ m (calm.pending s t _ related) done

theorem moveResult (kind : MoveKind) (dest : Nat) : Respects R R (moveResult p kind dest) :=
  calm.taken fun type => .ite (.refused _) (calm.store dest type)

theorem moveException (dest : Nat) : Respects R R (moveException p dest) := calm.taken fun type => calm.store dest type

theorem step (i : Instruction) (plain : mayWait i = false) : Respects R R (step p i) := by
  have read := calm.load
  have emitted := calm.emitted
  have written : ∀ r type i, Respects R R fun s => Lowering.store p r type (s.emit i) :=
    fun r type i => calm.afterEmit (calm.store r type) i
  cases i with
  | move | const | constWide | test | testZero => cases plain
  | nop => exact .same
  | moveResult kind dest => exact calm.moveResult kind dest
  | moveException dest => exact calm.moveException dest
  | returnVoid => exact emitted _
  | returnValue kind source => exact (read source _).andThen (.given fun _ => emitted _)
  | constString dest value => exact written dest _ _
  | constClass dest type => exact written dest _ _
  | monitorEnter r | monitorExit r => exact (read r object).andThen (emitted _)
  | checkCast r type => exact (read r type).andThen (written r type _)
  | instanceOf dest r type => exact (read r object).andThen (written dest .bool _)
  | arrayLength dest array => exact calm.array fun types => (read array types.1).andThen (written dest .int _)
  | newInstance dest type => exact written dest type _
  | newArray dest size type =>
    unfold Lowering.step
    dsimp only
    cases type.element? with
    | none => exact .refused _
    | some element => exact (read size .int).andThen (written dest type _)
  | filledNewArray items type => exact calm.filledNewArray items type
  | fillArrayData array data => exact calm.fillArrayData array data
  | throwValue r => exact (read r throwable).andThen (emitted _)
  | goto target => exact calm.jumpOn .always target
  | packedSwitch value firstKey targets next =>
    exact (read value .int).andThen ((calm.arriveAll _ .branch).andThen (emitted _))
  | sparseSwitch value pairs next =>
    exact (read value .int).andThen ((calm.arriveAll _ .branch).andThen (emitted _))
  | compare op dest left right => exact (read left _).andThen ((read right _).andThen (written dest .int _))
  | arrayGet op dest array index =>
    exact calm.array fun types => (read array types.1).andThen
      ((read index .int).andThen (.given fun _ => written dest types.2 _))
  | arrayPut op value array index =>
    exact calm.array fun types => (read array types.1).andThen
      ((read index .int).andThen ((read value types.2).andThen (.given fun _ => emitted _)))
  | instanceGet op dest r field => exact (read r field.owner).andThen (written dest field.type _)
  | instancePut op value r field => exact (read r field.owner).andThen ((read value field.type).andThen (emitted _))
  | staticGet op dest field => exact written dest field.type _
  | staticPut op value field => exact (read value field.type).andThen (emitted _)
  | invoke op args method => exact calm.invoke op args method
  | unary op dest source =>
    exact (read source _).andThen (.given fun _ => .given fun _ => calm.afterEmitAll (calm.store dest _) _)
  | binary op dest left right =>
    exact .given fun _ => (read left _).andThen ((read right _).andThen (written dest _ _))
  | binaryLiteral op dest source literal =>
    exact (read source .int).andThen (calm.afterEmitAll (calm.store dest .int) _)
  | reverseSubtract dest source literal =>
    exact (calm.afterEmit (read source .int) _).andThen (written dest .int _)
  | unsupported name => exact .refused _

end Calm

theorem Steady.step (steady : Steady p R) (i : Instruction) : Respects R R (step p i) := by
  cases waits : mayWait i with
  | false => exact steady.toCalm.step i waits
  | true =>
    cases i with
    | move kind dest source => exact steady.move kind dest source
    | const dest value => exact steady.constant dest _ false
    | constWide dest value => exact steady.constant dest _ true
    | test op left right target => exact steady.test op left right target
    | testZero op value target => exact steady.testZero op value target
    | _ => cases waits

-- What it takes besides for an invariant to hold from item to item.
structure Lasting (p : Plan) (I : State → Prop) : Prop where
  calm : Calm p (Itself I)
  push : ∀ s event, I s → I { s with draft := s.draft.push event }
  terminal : ∀ s flag, I s → I { s with terminal := flag }
  enter : ∀ label isTarget, Maintains I (enterLabel label isTarget)

namespace Lasting

variable (lasting : Lasting p I)
include lasting

theorem discardPending (holds : I s) : I s.discardPending := (lasting.calm.discardPending ⟨rfl,holds⟩).2

theorem placeLabel (address : Nat) (label : Label) : Maintains I (placeLabel p address label) := by
  intro s t holds done
  simp only [Lowering.placeLabel,bind_eq_ok,pure_eq_ok] at done
  obtain ⟨m,entered,rfl⟩ := done
  have cleared : I (if ((p.labels.entry? address).map LabelEntry.jumpTarget).getD false || s.joins.contains label.number
      then s.discardPending else s) := by
    split
    · exact lasting.discardPending holds
    · exact holds
  have placed := lasting.enter label _ _ m (lasting.push _ _ cleared) entered
  have noted := lasting.calm.pending m m ((p.handlers.caught.get? label.number).or m.pending) ⟨rfl,placed⟩
  exact lasting.terminal _ false noted.2

theorem placeInstruction (steady : Steady p (Itself I)) (address : Nat) (opcode : Opcode) (i : Instruction) :
    Maintains I (placeInstruction p address opcode i) := by
  intro s t holds done
  simp only [Lowering.placeInstruction,bind_eq_ok,pure_eq_ok,within_eq_ok] at done
  obtain ⟨m,arrived,u,stepped,rfl⟩ := done
  have cleared : I (if takesPending i then s else s.discardPending) := by
    split
    · exact holds
    · exact lasting.discardPending holds
  have entered := itself_respects.mp (lasting.calm.arriveAll _ .handler) _ m cleared arrived
  exact lasting.terminal u _ (itself_respects.mp (steady.step i) m u entered stepped)

theorem place (steady : Steady p (Itself I)) (item : BodyItem) : Maintains I fun s => place p s item := by
  cases item with
  | label address label => exact lasting.placeLabel address label
  | instruction address opcode i => exact lasting.placeInstruction steady address opcode i

end Lasting

-- The frame that a body starts with. Receiver and arguments come one after the other into an empty one.

theorem entryFrame_ok {shape : MethodShape} {slots : Slots} {f : Frame} (done : entryFrame shape slots = .ok f) :
    ∃ first, (shape.isStatic = true ∧ first = Frame.ofSize slots.registers ∨
        shape.isStatic = false ∧ (Frame.ofSize slots.registers).set slots.firstIn (.typed shape.owner) = .ok first) ∧
      shape.signature.args.foldlM enterArgument (first,slots.firstIn + if shape.isStatic then 0 else 1) =
        .ok (f,slots.registers) := by
  unfold entryFrame at done
  split at done
  · rename_i static
    simp only [bind_eq_ok,pure_eq_ok,guard_eq_ok,not_not] at done
    obtain ⟨_,rfl,⟨k,m⟩,ran,rfl,rfl⟩ := done
    exact ⟨_,.inl ⟨static,rfl⟩,by rwa [if_pos static]⟩
  · rename_i bound
    simp only [bind_eq_ok,pure_eq_ok,guard_eq_ok,not_not] at done
    obtain ⟨first,put,_,rfl,⟨k,m⟩,ran,rfl,rfl⟩ := done
    exact ⟨first,.inr ⟨by simpa using bound,put⟩,by rwa [if_neg bound]⟩

theorem entryFrame_keeps {Q : Frame → Prop} {shape : MethodShape} {slots : Slots} {f : Frame} (done : entryFrame shape slots = .ok f)
    (empty : Q (Frame.ofSize slots.registers))
    (written : ∀ f r type k, type ∈ shape.signature.args ∨ shape.isStatic = false ∧ type = shape.owner → Q f →
      f.set r (.typed type) = .ok k → Q k) : Q f := by
  obtain ⟨first,begun,ran⟩ := entryFrame_ok done
  have start : Q first := by
    rcases begun with ⟨-,rfl⟩ | ⟨bound,put⟩
    · exact empty
    · exact written _ _ _ first (.inr ⟨bound,rfl⟩) empty put
  refine foldlM_keeps (P := fun state : Frame × Nat => Q state.1) ?_ start ran
  intro state type next member before step
  simp only [enterArgument,bind_eq_ok,pure_eq_ok] at step
  obtain ⟨k,put,rfl⟩ := step
  exact written _ _ type k (.inl member) before put

-- Every state that lowering can come to: after any items of a body, and between them wherever
-- instructions are lowered, control arrives at labels, and in the end types are given out.
inductive Reaches (p : Plan) (start : State) : State → Prop where
  | start : Reaches p start start
  | place {s t : State} (item : BodyItem) : Reaches p start s → place p s item = .ok t → Reaches p start t
  | discard {s : State} : Reaches p start s → Reaches p start s.discardPending
  | arrive {s t : State} (label : Label) (arrival : Arrival) : Reaches p start s → s.arrive label arrival = .ok t →
      Reaches p start t
  | step {s t : State} (i : Instruction) : Reaches p start s → step p i s = .ok t → Reaches p start t
  | settle {s : State} {d : Draft} : Reaches p start s → s.draft.resolveDefaults = .ok d → Reaches p start { s with draft := d }

theorem run_reaches {items : List BodyItem} (ran : items.foldlM (place p) s = .ok t) : Reaches p s t :=
  foldlM_keeps (P := Reaches p s) (fun _ item _ _ before done => before.place item done) .start ran

end Restack.Lowering
