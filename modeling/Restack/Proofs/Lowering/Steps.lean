import Mathlib
import Restack.Lowering.Body
import Restack.Proofs.Lowering.Template

namespace Restack.Lowering

-- Lowering follows the templates.

variable {P : Descriptor → Prop} {p : Plan} {s t m : State} {parts : List Part} {r next last : Nat}
  {type element : Descriptor} {label target : Label} {registers : List Nat} {types : List Descriptor} {i : Instruction}

structure Lowered (P : Descriptor → Prop) (p : Plan) (i : Instruction) (s : State) (parts : List Part)
    (block : List Insn) (t : State) : Prop where
  template : Template p.shape.signature.result i s.pending parts t.pending
  expands : ExpandsAll P p parts block
  trace : Traced P p s block t

theorem Lowered.path {block : List Insn} (lowered : Lowered P p i s parts block t) : Evolves P s block t := lowered.trace.path

theorem Follows.load (before : Follows P p s parts m) (closed : Closed P) (valid : s.Valid P p) (typed : P type)
    (done : load p r type m = .ok t) : Follows P p s (parts ++ [.read r type]) t :=
  before.trans (load_spec (before.valid closed.int valid) typed done).1

theorem Follows.store (before : Follows P p s parts m) (closed : Closed P) (valid : s.Valid P p) (typed : P type)
    (done : store p r type m = .ok t) : Follows P p s (parts ++ [.write r type]) t :=
  before.trans (store_spec (before.valid closed.int valid) typed done)

theorem Follows.emit (before : Follows P p s parts m) (insn : Insn) (plain : insn.isPlain = true := by rfl) :
    Follows P p s (parts ++ [.code insn]) (m.emit insn) :=
  before.trans (follows_emit plain)

theorem Follows.jump {condition : Condition} (before : Follows P p s parts m)
    (done : jumpOn condition target m = .ok t) : Follows P p s (parts ++ [.code (.jump condition target)]) t := by
  simp only [jumpOn,bind_eq_ok,pure_eq_ok] at done
  obtain ⟨n,arrived,rfl⟩ := done
  exact before.trans (follows_leap (fun _ => Iff.rfl) rfl (arriveAll_single arrived) (.emit _ .refl) ⟨rfl,rfl,rfl⟩)

theorem Follows.jumpOpen {g : Group} {condition : Condition} (before : Follows P p s parts m) (closed : Closed P)
    (valid : s.Valid P p) (has : m.draft.Has g) (plain : condition.untyped = condition)
    (done : jumpOnOpen g condition target m = .ok t) : Follows P p s (parts ++ [.code (.jump condition target)]) t := by
  simp only [jumpOnOpen,bind_eq_ok,pure_eq_ok] at done
  obtain ⟨n,arrived,rfl⟩ := done
  obtain ⟨joined,d,rfl,landed⟩ := arrive_arrived closed.int (before.valid closed.int valid) arrived
  have path : Evolves P { m with draft := d, joins := NatMap.insert target.number joined m.joins } [.jump condition target] _ :=
    .site .refl (landed.settles.has.mpr has) (by simp [Insn.untyped,plain]) (.inr ⟨condition,target,rfl⟩)
  exact before.trans (follows_leap (fun _ => Iff.rfl) rfl (arriveAll_single arrived) path ⟨rfl,rfl,rfl⟩)

theorem Follows.switch {insn : Insn} {labels : List Label} {n : State} (before : Follows P p s parts m)
    (same : ∀ label, label ∈ labels ↔ label ∈ insn.targets) (still : insn.isTransfer = false)
    (arrived : m.arriveAll labels .branch = .ok n) : Follows P p s (parts ++ [.code insn]) (n.emit insn) :=
  before.trans (follows_leap same still arrived (.emit _ .refl) ⟨rfl,rfl,rfl⟩)

theorem switchInsn_targets (firstKey : Int32) (targets : List Label) (next : Label) :
    (∀ label, label ∈ targets ++ [next] ↔ label ∈ (switchInsn firstKey targets next).targets) ∧
      (switchInsn firstKey targets next).isTransfer = false := by
  cases targets with
  | nil => exact ⟨fun label => Iff.rfl,rfl⟩
  | cons first rest =>
    refine ⟨?_,rfl⟩
    intro label
    simp only [switchInsn,Insn.targets,List.isEmpty_cons,List.mem_append,List.mem_cons,List.not_mem_nil,or_false,
      Bool.false_eq_true,if_false]
    tauto

theorem unaryInsns_plain (op : UnaryOp) (source result : Kind) : ∀ i ∈ unaryInsns op source result, i.isPlain = true := by
  cases op <;> simp [unaryInsns,Insn.isPlain]

theorem arguments_spec {missing : Inexpressible} (closed : Closed P) (valid : s.Valid P p)
    (typed : ∀ type ∈ types, P type) (done : loadArguments p registers missing types next s = .ok (last,t))
    (full : last = registers.length) :
    ∃ reads, arguments? registers types next = some reads ∧ Follows P p s (readParts reads) t := by
  induction types generalizing next s with
  | nil =>
    cases done
    exact ⟨[],by simp [arguments?,full],.refl⟩
  | cons type types ih =>
    unfold loadArguments at done
    split at done
    · simp at done
    · rename_i r found
      simp only [bind_eq_ok] at done
      obtain ⟨m,loaded,done⟩ := done
      have here := (load_spec valid (typed type List.mem_cons_self) loaded).1
      obtain ⟨reads,taken,rest⟩ := ih (here.valid closed.int valid) (fun other member => typed other (List.mem_cons_of_mem _ member)) done
      exact ⟨(r,type) :: reads,by simp [arguments?,found,taken],here.trans rest⟩

theorem invoke_lowered {op : InvokeOp} {m : MethodReference} (closed : Closed P) (valid : s.Valid P p)
    (typed : ∀ type ∈ givenTypes p.shape.signature.result (.invoke op registers m), P type) (clear : s.pending = none)
    (done : invoke p op registers m s = .ok t) : ∃ parts block, Lowered P p (.invoke op registers m) s parts block t := by
  simp only [invoke,bind_eq_ok,guard_eq_ok,pure_eq_ok] at done
  obtain ⟨⟨next,u⟩,received,⟨last,v⟩,passed,full,rfl⟩ := done
  rw [not_not] at full
  have args : ∀ type ∈ m.signature.args, P type := fun type member => typed type (by simp [givenTypes,member])
  -- The result, if there is one, is left on the stack.
  have left : ∀ {parts : List Part} {call : Insn}, Follows P p s (parts ++ [.code call]) (v.emit call) →
      Template p.shape.signature.result (.invoke op registers m) none (parts ++ [.code call]) (resultLeft m) →
      ∃ parts block, Lowered P p (.invoke op registers m) s parts block
        (if m.signature.result = .void then v.emit call else { v.emit call with pending := some m.signature.result }) := by
    rintro parts call ⟨⟨block,expanded,traced⟩,kept⟩ template
    refine ⟨_,block,?_,expanded,?_⟩
    · rw [clear]
      by_cases isVoid : m.signature.result = .void
      · simpa [resultLeft,isVoid,kept,clear] using template
      · simpa [resultLeft,isVoid] using template
    · split
      · exact traced
      · rename_i value
        refine .quiet traced (.hold .refl ?_) rfl rfl
        rintro type ⟨⟩
        exact typed _ (by simp [givenTypes,value])
  unfold loadReceiver at received
  split at received
  · rename_i isStatic
    cases received
    subst isStatic
    obtain ⟨reads,taken,follows⟩ := arguments_spec closed valid args passed full
    exact left (follows.emit _) (.invokeStatic taken)
  · rename_i notStatic
    split at received
    · simp at received
    · rename_i r first
      simp only [bind_eq_ok,pure_eq_ok,Prod.mk.injEq] at received
      obtain ⟨w,loaded,rfl,rfl⟩ := received
      have receiver := (load_spec valid (typed m.owner (by simp [givenTypes,notStatic])) loaded).1
      obtain ⟨reads,taken,follows⟩ := arguments_spec closed (receiver.valid closed.int valid) args passed full
      exact left ((receiver.trans follows).emit _) (.invoke notStatic first taken)

theorem arrayTypeOf_spec {op : AccessOp} (closed : Closed P) (valid : s.Valid P p)
    (done : arrayTypeOf r op s = .ok (type,element)) : type = .array element ∧ P type ∧ P element := by
  simp only [arrayTypeOf,bind_eq_ok] at done
  obtain ⟨state,got,done⟩ := done
  obtain ⟨known,-⟩ := register_state valid got
  split at done
  · cases done
    exact ⟨rfl,known,closed.reference _ known rfl _⟩
  · split at done
    · cases done
      exact ⟨rfl,closed.reference _ known rfl _,closed.reference _ known rfl _⟩
    · simp at done
  · simp at done

theorem element_array (isArray : type.element? = some element) : type = .array element := by
  cases type <;> simp_all [Descriptor.element?]

theorem fillElements_spec {kind : ArrayKind} {n : Nat} (closed : Closed P) (valid : s.Valid P p) (typed : P element)
    (done : fillElements p element kind n registers s = .ok t) :
    Follows P p s (elementParts element kind n registers) t := by
  induction registers generalizing n s with
  | nil =>
    cases done
    exact .refl
  | cons r registers ih =>
    simp only [fillElements,bind_eq_ok] at done
    obtain ⟨m,loaded,done⟩ := done
    have start := follows_emitAll (P := P) (p := p) (s := s) [.dup,.const (.int (Int32.ofNat n))] (by simp [Insn.isPlain])
    have here := (start.load closed valid typed loaded).emit (.arrayStore kind)
    exact here.trans (ih (here.valid closed.int valid) done)

theorem storeData_spec {kind : ArrayKind} {n : Nat} {items : List Nat} (closed : Closed P) (valid : s.Valid P p)
    (typed : P type) (done : storeData p r type element kind n items s = .ok t) :
    Follows P p s (dataParts r type element kind n items) t := by
  induction items generalizing n s with
  | nil =>
    cases done
    exact .refl
  | cons bits rest ih =>
    simp only [storeData,bind_eq_ok] at done
    obtain ⟨m,loaded,done⟩ := done
    have array := (load_spec valid typed loaded).1
    have here := array.trans (follows_emitAll
      [.const (.int (Int32.ofNat n)),.const (dataConstant element bits),.arrayStore kind] (by simp [Insn.isPlain]))
    exact here.trans (ih (here.valid closed.int valid) done)

theorem fillArrayData_spec {data : ArrayData} (closed : Closed P) (valid : s.Valid P p)
    (done : fillArrayData p r data s = .ok t) :
    ∃ element kind, element.arrayKind? = some kind ∧
      Follows P p s (dataParts r (.array element) element kind 0 data.elements) t := by
  simp only [fillArrayData,bind_eq_ok] at done
  obtain ⟨state,got,done⟩ := done
  obtain ⟨known,-⟩ := register_state valid got
  split at done
  · rename_i element
    split at done
    · simp at done
    · simp only [guard_eq_ok,bind_eq_ok,arrayKindOf_ok] at done
      obtain ⟨-,kind,family,done⟩ := done
      exact ⟨element,kind,family,storeData_spec closed valid known done⟩
  · simp at done

-- Registers of open type are copied or compared as they are.

theorem moveWidth_spec {kind : MoveKind} {dest source : Nat} (closed : Closed P) (valid : s.Valid P p)
    (first : Follows P p s [] m) (done : (do
      let (state,m) ← loadAsIs p source m
      if state.isWide ≠ decide (kind = MoveKind.wide) then refuse (.moveWidth (decide (kind = MoveKind.wide)) source state)
      storeAs p dest state m) = .ok t) : Follows P p s [.copy dest source (decide (kind = .wide))] t := by
  simp only [bind_eq_ok,guard_eq_ok] at done
  obtain ⟨⟨state,n⟩,read,width,done⟩ := done
  rw [← not_not.mp width]
  exact first.trans (copy_spec (first.valid closed.int valid) read done)

theorem move_spec {kind : MoveKind} {dest source : Nat} (closed : Closed P) (valid : s.Valid P p)
    (typed : kind = .object → P object) (done : move p kind dest source s = .ok t) :
    Follows P p s [.copy dest source (decide (kind = .wide))] t := by
  unfold move at done
  split at done
  · rename_i isObject
    rw [bind_eq_ok] at done
    obtain ⟨held,got,done⟩ := done
    split at done
    · rename_i g group
      rw [bind_eq_ok] at done
      obtain ⟨m,settled,done⟩ := done
      have has := ((register_state valid got).2 g group).1
      obtain ⟨path,d,rfl⟩ := resolve_evolves has (typed isObject) settled
      exact moveWidth_spec closed valid (follows_quiet path rfl rfl rfl) done
    · exact moveWidth_spec closed valid .refl done
  · exact moveWidth_spec closed valid .refl done

theorem testInts_spec {op : TestOp} {left right : Nat} (closed : Closed P) (valid : s.Valid P p)
    (done : (do
      let s ← load p left .int s
      let s ← load p right .int s
      jumpOn (.ints op.comparison) target s) = .ok t) :
    Follows P p s [.read left .int,.read right .int,.code (.jump (.ints op.comparison) target)] t := by
  simp only [bind_eq_ok] at done
  obtain ⟨m,one,n,two,done⟩ := done
  have first := (load_spec valid closed.int one).1
  exact (first.load closed valid closed.int two).jump done

theorem testOpen_spec {op : TestOp} {left right : Nat} {a b : Group} (closed : Closed P) (valid : s.Valid P p)
    (one : s.register left = .ok (.open32 a)) (two : s.register right = .ok (.open32 b))
    (done : (do
      let (_, m) ← loadAsIs p left { s with draft := (s.draft.union a b).2 }
      let (_, m) ← loadAsIs p right m
      jumpOnOpen (s.draft.union a b).1 (.ints op.comparison) target m) = .ok t) :
    Follows P p s [.look left,.look right,.code (.jump (.ints op.comparison) target)] t := by
  obtain ⟨hasLeft,openLeft⟩ := (register_state valid one).2 a rfl
  obtain ⟨hasRight,openRight⟩ := (register_state valid two).2 b rfl
  have rooted := valid.draft.toRooted
  have still : ∀ g, s.draft.Has g → s.draft.resolution? g = none → (s.draft.union a b).2.resolution? g = none := by
    intro g has free
    rw [Draft.union_resolution rooted hasLeft openLeft openRight has,free]
  have first : Follows P p s [] { s with draft := (s.draft.union a b).2 } :=
    follows_quiet (.settle .refl (Draft.settles_union hasLeft hasRight openLeft openRight)) rfl rfl rfl
  simp only [bind_eq_ok] at done
  obtain ⟨⟨_,m⟩,readLeft,⟨_,n⟩,readRight,done⟩ := done
  have gotLeft := register_open (t := { s with draft := (s.draft.union a b).2 }) one rfl rfl (still a hasLeft openLeft)
  obtain ⟨second,x,rfl⟩ := look_spec (first.valid closed.int valid) gotLeft readLeft
  have gotRight := register_open (t := State.emitSite { s with draft := (s.draft.union a b).2 } a (.load .int x)) two rfl rfl
    (by simpa [State.emitSite,Draft.pushSite] using still b hasRight openRight)
  have both := first.trans second
  obtain ⟨third,y,rfl⟩ := look_spec (both.valid closed.int valid) gotRight readRight
  refine (both.trans third).jumpOpen closed valid ?_ rfl done
  simpa [State.emitSite,Draft.pushSite] using rooted.has_root hasLeft

theorem referenceType_known {d : Draft} {state : RegisterState} (known : state.Valid P d)
    (found : referenceType? state = some type) : P type ∧ type.isReference := by
  unfold referenceType? at found
  split at found
  · split at found
    · cases found
      exact ⟨known,‹_›⟩
    · cases found
  · cases found

theorem open32_of_group {state : RegisterState} {g : Group} (group : state.group? = some g)
    (narrow : state.isWide = false) : state = .open32 g := by
  cases state <;> simp_all [RegisterState.group?,RegisterState.isWide]

theorem test_spec {op : TestOp} {left right : Nat} (closed : Closed P) (valid : s.Valid P p) (result : Descriptor)
    (done : test p op left right target s = .ok t) :
    ∃ parts, Template result (.test op left right target) none parts none ∧ Follows P p s parts t := by
  simp only [test,bind_eq_ok] at done
  obtain ⟨a,gotLeft,b,gotRight,done⟩ := done
  split at done
  · rename_i type found
    have known : P type ∧ type.isReference := by
      rcases Option.or_eq_some_iff.mp found with here | ⟨-,here⟩
      · exact referenceType_known (register_state valid gotLeft).1 here
      · exact referenceType_known (register_state valid gotRight).1 here
    simp only [guard_eq_ok,bind_eq_ok] at done
    obtain ⟨-,m,one,n,two,done⟩ := done
    have first := (load_spec valid known.1 one).1
    exact ⟨_,.testReference known.2,(first.load closed valid known.1 two).jump done⟩
  · split at done
    · rename_i x y groupLeft groupRight
      split at done
      · rename_i narrow
        simp only [Bool.and_eq_true,Bool.not_eq_true'] at narrow
        obtain ⟨⟨-,narrowLeft⟩,narrowRight⟩ := narrow
        obtain rfl := open32_of_group groupLeft narrowLeft
        obtain rfl := open32_of_group groupRight narrowRight
        exact ⟨_,.testOpen,testOpen_spec closed valid gotLeft gotRight done⟩
      · exact ⟨_,.test,testInts_spec closed valid done⟩
    · exact ⟨_,.test,testInts_spec closed valid done⟩

theorem testZero_spec {op : TestOp} (closed : Closed P) (valid : s.Valid P p) (result : Descriptor)
    (done : testZero p op r target s = .ok t) :
    ∃ parts, Template result (.testZero op r target) none parts none ∧ Follows P p s parts t := by
  have asInt : (do
      let m ← load p r .int s
      jumpOn (.zero op.comparison) target m) = .ok t →
      ∃ parts, Template result (.testZero op r target) none parts none ∧ Follows P p s parts t := by
    intro done
    rw [bind_eq_ok] at done
    obtain ⟨m,loaded,done⟩ := done
    exact ⟨_,.testZero,((load_spec valid closed.int loaded).1).jump done⟩
  simp only [testZero] at done
  rw [bind_eq_ok] at done
  obtain ⟨state,got,done⟩ := done
  obtain ⟨known,isOpen⟩ := register_state valid got
  cases state with
  | unknown => exact asInt done
  | open64 g => exact asInt done
  | typed type =>
    dsimp only at done
    split at done
    · rename_i reference
      simp only [guard_eq_ok,bind_eq_ok] at done
      obtain ⟨-,m,loaded,done⟩ := done
      exact ⟨_,.testNull reference,((load_spec valid known loaded).1).jump done⟩
    · exact asInt done
  | open32 g =>
    dsimp only at done
    split at done
    · simp only [bind_eq_ok] at done
      obtain ⟨⟨_,m⟩,read,done⟩ := done
      obtain ⟨first,slot,rfl⟩ := look_spec valid got read
      refine ⟨_,.testZeroOpen,first.jumpOpen closed valid ?_ rfl done⟩
      simpa [State.emitSite,Draft.pushSite] using (isOpen g rfl).1
    · exact asInt done

theorem taken_spec {dest : Nat} (valid : s.Valid P p) (left : s.pending = some type)
    (done : store p dest type { s with pending := none } = .ok t) :
    t.pending = none ∧ ∃ block, ExpandsAll P p [.write dest type] block ∧ Traced P p s block t := by
  have path : Evolves P s [] { s with pending := none } := .hold .refl (by simp)
  have typed := valid.pending type left
  have empty : State.Valid P p { s with pending := none } :=
    ⟨valid.draft,valid.frame,valid.size,valid.joins,by simp⟩
  obtain ⟨⟨block,expanded,traced⟩,kept⟩ := store_spec empty typed done
  exact ⟨kept,block,expanded,(Traced.quiet .refl path rfl rfl).trans traced⟩

theorem takePending_some {rest : State} (taken : takePending s = some (type,rest)) :
    s.pending = some type ∧ rest = { s with pending := none } := by
  unfold takePending at taken
  obtain ⟨left,found,same⟩ := Option.map_eq_some_iff.mp taken
  cases same
  exact ⟨found,rfl⟩

theorem Follows.lowered (follows : Follows P p s parts t) (clear : s.pending = none)
    (template : Template p.shape.signature.result i none parts none) :
    ∃ parts block, Lowered P p i s parts block t := by
  obtain ⟨⟨block,expanded,traced⟩,kept⟩ := follows
  refine ⟨parts,block,?_,expanded,traced⟩
  rwa [kept,clear]

theorem step_lowered (closed : Closed P) (valid : s.Valid P p)
    (typed : ∀ type ∈ givenTypes p.shape.signature.result i, P type) (clear : takesPending i = false → s.pending = none)
    (done : step p i s = .ok t) : ∃ parts block, Lowered P p i s parts block t := by
  have start : Follows P p s [] s := .refl
  cases i with
  | nop =>
    cases done
    exact start.lowered (clear rfl) .nop
  | move kind dest source =>
    exact (move_spec closed valid (fun isObject => typed _ (by simp [givenTypes,isObject])) done).lowered (clear rfl) .move
  | moveResult kind dest =>
    simp only [step,moveResult] at done
    split at done
    · simp at done
    · rename_i type rest taken
      obtain ⟨left,rfl⟩ := takePending_some taken
      split at done
      · simp at done
      · rename_i fits
        simp only [ne_eq,decide_not,Bool.or_eq_true,Bool.not_eq_true',decide_eq_false_iff_not,not_or,not_not] at fits
        obtain ⟨kept,block,expanded,traced⟩ := taken_spec valid left done
        refine ⟨_,block,?_,expanded,traced⟩
        rw [left,kept]
        exact .moveResult fits.1 fits.2
  | moveException dest =>
    simp only [step,moveException] at done
    split at done
    · simp at done
    · rename_i type rest taken
      obtain ⟨left,rfl⟩ := takePending_some taken
      obtain ⟨kept,block,expanded,traced⟩ := taken_spec valid left done
      refine ⟨_,block,?_,expanded,traced⟩
      rw [left,kept]
      exact .moveException
  | returnVoid =>
    cases done
    exact (start.emit _).lowered (clear rfl) .returnVoid
  | returnValue kind source =>
    simp only [step,bind_eq_ok,pure_eq_ok,kindOf_ok] at done
    obtain ⟨m,loaded,kind,known,rfl⟩ := done
    exact ((start.load closed valid (typed _ (by simp [givenTypes])) loaded).emit _).lowered (clear rfl) (.returnValue known)
  | const dest value =>
    have done : constant p dest (.int value) false s = .ok t := done
    exact (constant_spec valid rfl done).lowered (clear rfl) .const
  | constWide dest value =>
    have done : constant p dest (.long value) true s = .ok t := done
    exact (constant_spec valid rfl done).lowered (clear rfl) .constWide
  | constString dest value =>
    exact ((start.emit _).store closed valid (typed _ (by simp [givenTypes])) done).lowered (clear rfl) .constString
  | constClass dest type =>
    exact ((start.emit _).store closed valid (typed _ (by simp [givenTypes])) done).lowered (clear rfl) .constClass
  | monitorEnter r =>
    simp only [step,bind_eq_ok,pure_eq_ok] at done
    obtain ⟨m,loaded,rfl⟩ := done
    exact ((start.load closed valid (typed _ (by simp [givenTypes])) loaded).emit _).lowered (clear rfl) .monitorEnter
  | monitorExit r =>
    simp only [step,bind_eq_ok,pure_eq_ok] at done
    obtain ⟨m,loaded,rfl⟩ := done
    exact ((start.load closed valid (typed _ (by simp [givenTypes])) loaded).emit _).lowered (clear rfl) .monitorExit
  | checkCast r type =>
    simp only [step,bind_eq_ok] at done
    obtain ⟨m,loaded,done⟩ := done
    have known : P type := typed _ (by simp [givenTypes])
    exact (((start.load closed valid known loaded).emit _).store closed valid known done).lowered (clear rfl) .checkCast
  | instanceOf dest r type =>
    simp only [step,bind_eq_ok] at done
    obtain ⟨m,loaded,done⟩ := done
    have here := (start.load closed valid (typed _ (by simp [givenTypes])) loaded).emit (.instanceOf type.internalName)
    exact (here.store closed valid (typed _ (by simp [givenTypes])) done).lowered (clear rfl) .instanceOf
  | arrayLength dest array =>
    simp only [step,bind_eq_ok] at done
    obtain ⟨⟨type,element⟩,found,m,loaded,done⟩ := done
    obtain ⟨rfl,known,-⟩ := arrayTypeOf_spec closed valid found
    exact (((start.load closed valid known loaded).emit _).store closed valid closed.int done).lowered (clear rfl) .arrayLength
  | newInstance dest type =>
    exact ((start.emit _).store closed valid (typed _ (by simp [givenTypes])) done).lowered (clear rfl) .newInstance
  | newArray dest size type =>
    simp only [step] at done
    split at done
    · simp at done
    · rename_i element isArray
      obtain rfl := element_array isArray
      simp only [bind_eq_ok] at done
      obtain ⟨m,loaded,done⟩ := done
      have here := (start.load closed valid closed.int loaded).emit (.newArray element)
      exact (here.store closed valid (typed _ (by simp [givenTypes])) done).lowered (clear rfl) .newArray
  | filledNewArray registers type =>
    simp only [step,filledNewArray] at done
    split at done
    · simp at done
    · rename_i element isArray
      obtain rfl := element_array isArray
      simp only [bind_eq_ok,pure_eq_ok,arrayKindOf_ok] at done
      obtain ⟨kind,family,m,filled,rfl⟩ := done
      have known : P (.array element) := typed _ (by simp [givenTypes])
      have head := follows_emitAll (P := P) (p := p) (s := s)
        [.const (.int (Int32.ofNat registers.length)),.newArray element] (by simp [Insn.isPlain])
      have tail := fillElements_spec closed (head.valid closed.int valid) (closed.reference _ known rfl element) filled
      obtain ⟨⟨block,expanded,traced⟩,kept⟩ := head.trans tail
      refine ⟨_,block,?_,expanded,.quiet traced (.hold .refl ?_) rfl rfl⟩
      · rw [clear rfl]
        exact .filledNewArray family
      · rintro other ⟨⟩
        exact known
  | fillArrayData r data =>
    obtain ⟨element,kind,family,follows⟩ := fillArrayData_spec closed valid done
    exact follows.lowered (clear rfl) (.fillArrayData family)
  | throwValue r =>
    simp only [step,bind_eq_ok,pure_eq_ok] at done
    obtain ⟨m,loaded,rfl⟩ := done
    exact ((start.load closed valid (typed _ (by simp [givenTypes])) loaded).emit _).lowered (clear rfl) .throwValue
  | goto target => exact (start.jump done).lowered (clear rfl) .goto
  | packedSwitch value firstKey targets next =>
    simp only [step,packedSwitch,bind_eq_ok,pure_eq_ok] at done
    obtain ⟨m,loaded,n,arrived,rfl⟩ := done
    have first := start.load closed valid closed.int loaded
    obtain ⟨same,still⟩ := switchInsn_targets firstKey targets next
    exact (first.switch same still arrived).lowered (clear rfl) .packedSwitch
  | sparseSwitch value pairs next =>
    simp only [step,sparseSwitch,bind_eq_ok,pure_eq_ok] at done
    obtain ⟨m,loaded,n,arrived,rfl⟩ := done
    have first := start.load closed valid closed.int loaded
    have same : ∀ label, label ∈ pairs.map Prod.snd ++ [next] ↔ label ∈ (Insn.lookupSwitch next pairs).targets := by
      intro label
      simp [Insn.targets,or_comm]
    exact (first.switch same rfl arrived).lowered (clear rfl) .sparseSwitch
  | compare op dest left right =>
    simp only [step,bind_eq_ok] at done
    obtain ⟨m,one,n,two,done⟩ := done
    have known : P op.operand := typed _ (by simp [givenTypes])
    have here := ((start.load closed valid known one).load closed valid known two).emit (compareInsn op) (by cases op <;> rfl)
    exact (here.store closed valid closed.int done).lowered (clear rfl) .compare
  | test op left right target =>
    obtain ⟨parts,template,follows⟩ := test_spec closed valid p.shape.signature.result done
    exact follows.lowered (clear rfl) template
  | testZero op r target =>
    obtain ⟨parts,template,follows⟩ := testZero_spec closed valid p.shape.signature.result done
    exact follows.lowered (clear rfl) template
  | arrayGet op dest array index =>
    simp only [step,arrayGet,bind_eq_ok,arrayKindOf_ok] at done
    obtain ⟨⟨type,element⟩,found,m,one,n,two,kind,family,done⟩ := done
    obtain ⟨rfl,known,inner⟩ := arrayTypeOf_spec closed valid found
    have here := ((start.load closed valid known one).load closed valid closed.int two).emit (.arrayLoad kind)
    exact (here.store closed valid inner done).lowered (clear rfl) (.arrayGet family)
  | arrayPut op value array index =>
    simp only [step,arrayPut,bind_eq_ok,pure_eq_ok,arrayKindOf_ok] at done
    obtain ⟨⟨type,element⟩,found,m,one,n,two,o,three,kind,family,rfl⟩ := done
    obtain ⟨rfl,known,inner⟩ := arrayTypeOf_spec closed valid found
    have here := (start.load closed valid known one).load closed valid closed.int two
    exact ((here.load closed valid inner three).emit _).lowered (clear rfl) (.arrayPut family)
  | instanceGet op dest r field =>
    simp only [step,bind_eq_ok] at done
    obtain ⟨m,loaded,done⟩ := done
    have here := (start.load closed valid (typed _ (by simp [givenTypes])) loaded).emit (.getField (fieldRef field))
    exact (here.store closed valid (typed _ (by simp [givenTypes])) done).lowered (clear rfl) .instanceGet
  | instancePut op value r field =>
    simp only [step,bind_eq_ok,pure_eq_ok] at done
    obtain ⟨m,one,n,two,rfl⟩ := done
    have here := start.load closed valid (typed _ (by simp [givenTypes])) one
    exact ((here.load closed valid (typed _ (by simp [givenTypes])) two).emit _).lowered (clear rfl) .instancePut
  | staticGet op dest field =>
    exact ((start.emit _).store closed valid (typed _ (by simp [givenTypes])) done).lowered (clear rfl) .staticGet
  | staticPut op value field =>
    simp only [step,bind_eq_ok,pure_eq_ok] at done
    obtain ⟨m,loaded,rfl⟩ := done
    exact ((start.load closed valid (typed _ (by simp [givenTypes])) loaded).emit _).lowered (clear rfl) .staticPut
  | invoke op registers method => exact invoke_lowered closed valid typed (clear rfl) done
  | unary op dest source =>
    simp only [step,Lowering.unary,bind_eq_ok,kindOf_ok] at done
    obtain ⟨m,loaded,before,source,after,into,done⟩ := done
    have here := start.load closed valid (typed _ (by simp [givenTypes])) loaded
    have all := here.trans (follows_emitAll (unaryInsns op before after) (unaryInsns_plain op before after))
    exact (all.store closed valid (typed _ (by simp [givenTypes])) done).lowered (clear rfl) (.unary source into)
  | binary op dest left right =>
    simp only [step,Lowering.binary,bind_eq_ok,kindOf_ok] at done
    obtain ⟨kind,family,m,one,n,two,done⟩ := done
    have known : P op.type := typed _ (by simp [givenTypes])
    have second : P (if op.isShift then .int else op.type) := by
      split
      · exact closed.int
      · exact known
    have here := ((start.load closed valid known one).load closed valid second two).emit (.arith op.arith kind)
    exact (here.store closed valid known done).lowered (clear rfl) (.binary family)
  | binaryLiteral op dest source literal =>
    simp only [step,bind_eq_ok] at done
    obtain ⟨m,loaded,done⟩ := done
    have here := (start.load closed valid closed.int loaded).trans (follows_emitAll [.const (.int literal),.arith op .int] (by simp [Insn.isPlain]))
    exact (here.store closed valid closed.int done).lowered (clear rfl) .binaryLiteral
  | reverseSubtract dest source literal =>
    simp only [step,bind_eq_ok] at done
    obtain ⟨m,loaded,done⟩ := done
    have here := ((start.emit (.const (.int literal))).load closed valid closed.int loaded).emit (.arith .sub .int)
    exact (here.store closed valid closed.int done).lowered (clear rfl) .reverseSubtract
  | unsupported name => simp [step] at done

end Restack.Lowering
