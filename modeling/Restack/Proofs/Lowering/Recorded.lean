import Mathlib
import Restack.Proofs.Lowering.Placeholders
import Restack.Proofs.Lowering.Transfers

namespace Restack.Lowering

-- Lowering with a record of its placeholders. Nothing that is lowered depends on the record, so it
-- is kept beside the state, by a run that does what lowering does and writes each placeholder down
-- when it is emitted.

structure Recorded where
  state : State
  log : List Placeholder := []

variable {p : Plan} {s t : State} {m n : Recorded} {log : List Placeholder} {r : Nat} {held : RegisterState} {a b g : Group}
  {type : Descriptor} {item : BodyItem} {items : List BodyItem}

namespace Recorded

def emitSite (m : Recorded) (g : Group) (i : Insn) : Recorded where
  state := m.state.emitSite g i
  log := m.log ++ [⟨m.state.draft.events.size,g,i,m.state.draft.resolution? g⟩]

def lift (m : Recorded) (f : State → Except Fault State) : Except Fault Recorded := do
  return { m with state := ← f m.state }

def loadAsIs (p : Plan) (r : Nat) (m : Recorded) : Except Fault (RegisterState × Recorded) := do
  let slot ← p.slots.slot r
  let state ← m.state.register r
  match state with
  | .unknown => refuse (.copyTooEarly r)
  | .typed type => do
    let kind ← kindOf type
    return (state,{ m with state := m.state.emit (.load kind slot) })
  | .open32 g => return (state,m.emitSite g (.load .int slot))
  | .open64 g => return (state,m.emitSite g (.load .long slot))

def storeAs (p : Plan) (r : Nat) (state : RegisterState) (m : Recorded) : Except Fault Recorded := do
  let slot ← p.slots.slot r
  match state with
  | .typed type => m.lift (store p r type)
  | .open32 g => (m.emitSite g (.store .int slot)).lift (State.setRegister · r state)
  | .open64 g => (m.emitSite g (.store .long slot)).lift (State.setRegister · r state)
  | .unknown => refuse (.storeUnknown r)

def constant (p : Plan) (r : Nat) (value : Constant) (wide : Bool) (m : Recorded) : Except Fault Recorded :=
  let (g,draft) := m.state.draft.newGroup wide
  let m : Recorded := { m with state := { m.state with draft } }
  storeAs p r (if wide then .open64 g else .open32 g) (m.emitSite g (.const value))

def move (p : Plan) (kind : MoveKind) (dest source : Nat) (m : Recorded) : Except Fault Recorded := do
  let m ←
    if kind = .object then do
      match (← m.state.register source).group? with
      | some g => m.lift (State.resolve · g object)
      | none => pure m
    else pure m
  let (state,m) ← loadAsIs p source m
  let wide := decide (kind = .wide)
  if state.isWide ≠ wide then refuse (.moveWidth wide source state)
  storeAs p dest state m

def jumpOnOpen (g : Group) (condition : Condition) (target : Label) (m : Recorded) : Except Fault Recorded := do
  let m ← m.lift (State.arrive · target .branch)
  return m.emitSite g (.jump condition target)

def test (p : Plan) (op : TestOp) (left right : Nat) (target : Label) (m : Recorded) : Except Fault Recorded := do
  let a ← m.state.register left
  let b ← m.state.register right
  match (referenceType? a).or (referenceType? b) with
  | some type =>
    if !op.isEquality then refuse (.orderOfReferences op left right)
    let m ← m.lift (load p left type)
    let m ← m.lift (load p right type)
    m.lift (jumpOn (sameCondition op) target)
  | none =>
    let ints : Except Fault Recorded := do
      let m ← m.lift (load p left .int)
      let m ← m.lift (load p right .int)
      m.lift (jumpOn (.ints op.comparison) target)
    match a.group?,b.group? with
    | some ga,some gb =>
      if op.isEquality && !a.isWide && !b.isWide then
        let (g,draft) := m.state.draft.union ga gb
        let (_,m) ← loadAsIs p left { m with state := { m.state with draft } }
        let (_,m) ← loadAsIs p right m
        jumpOnOpen g (.ints op.comparison) target m
      else ints
    | _,_ => ints

def testZero (p : Plan) (op : TestOp) (r : Nat) (target : Label) (m : Recorded) : Except Fault Recorded := do
  let state ← m.state.register r
  let int : Except Fault Recorded := do
    let m ← m.lift (load p r .int)
    m.lift (jumpOn (.zero op.comparison) target)
  match state with
  | .typed type =>
    if type.isReference then
      if !op.isEquality then refuse (.orderOfReference op r)
      let m ← m.lift (load p r type)
      m.lift (jumpOn (nullCondition op) target)
    else int
  | .open32 g =>
    if op.isEquality then
      let (_,m) ← loadAsIs p r m
      jumpOnOpen g (.zero op.comparison) target m
    else int
  | _ => int

def step (p : Plan) (i : Instruction) (m : Recorded) : Except Fault Recorded :=
  match i with
  | .move kind dest source => move p kind dest source m
  | .const dest value => constant p dest (.int value) false m
  | .constWide dest value => constant p dest (.long value) true m
  | .test op left right target => test p op left right target m
  | .testZero op r target => testZero p op r target m
  | i => m.lift (Lowering.step p i)

def placeInstruction (p : Plan) (address : Nat) (opcode : Opcode) (i : Instruction) (m : Recorded) : Except Fault Recorded := do
  let m : Recorded := if takesPending i then m else { m with state := m.state.discardPending }
  let m ← m.lift (State.arriveAll · (p.handlers.covering address) .handler)
  let m ← within (.instruction opcode.name address) (step p i m)
  return { m with state := { m.state with terminal := endsTerminal m.state.draft } }

def place (p : Plan) (m : Recorded) : BodyItem → Except Fault Recorded
  | .label address label => m.lift (placeLabel p address label)
  | .instruction address opcode i => placeInstruction p address opcode i m

def finish (p : Plan) (m : Recorded) (body : DecodedBody) : Except Fault Recorded := do
  let m ← body.foldlM (place p) m
  m.lift fun s => return { s with draft := ← s.draft.resolveDefaults }

-- Without the record it is the run of lowering itself, with the same faults.

def erase (x : Except Fault Recorded) : Except Fault State := x.map Recorded.state

theorem map_bind_of {α β γ δ : Type} {φ : α → β} {ψ : γ → δ} {f : α → Except Fault γ} {h : β → Except Fault δ}
    (x : Except Fault α) (same : ∀ a, (f a).map ψ = h (φ a)) : (x >>= f).map ψ = x.map φ >>= h := by
  cases x with
  | error fault => rfl
  | ok a => exact same a

theorem erase_given {α : Type} {f : α → Except Fault Recorded} {h : α → Except Fault State} (x : Except Fault α)
    (same : ∀ a, erase (f a) = h a) : erase (x >>= f) = x >>= h := by
  cases x with
  | error fault => rfl
  | ok a => exact same a

theorem erase_then {f : Recorded → Except Fault Recorded} {h : State → Except Fault State} (x : Except Fault Recorded)
    (same : ∀ m, erase (f m) = h m.state) : erase (x >>= f) = erase x >>= h := map_bind_of x same

theorem erase_lift (m : Recorded) (f : State → Except Fault State) : erase (m.lift f) = f m.state := by
  unfold lift
  cases f m.state <;> rfl

theorem erase_lift_then {f h : State → Except Fault State} {k : Recorded → Except Fault Recorded} {m : Recorded}
    (same : ∀ n, erase (k n) = h n.state) : erase (m.lift f >>= k) = f m.state >>= h :=
  (erase_then _ same).trans (by rw [erase_lift])

theorem erase_guard {c : Prop} [Decidable c] {cause : Inexpressible} {x : Except Fault Recorded} {y : Except Fault State}
    (same : erase x = y) : erase (if c then refuse cause >>= fun _ : PUnit => x else x) =
      if c then refuse cause >>= fun _ : PUnit => y else y := by
  split
  · rfl
  · exact same

theorem erase_loadAsIs {f : RegisterState × Recorded → Except Fault Recorded} {h : RegisterState × State → Except Fault State}
    (same : ∀ held m, erase (f (held,m)) = h (held,m.state)) :
    erase (loadAsIs p r m >>= f) = Lowering.loadAsIs p r m.state >>= h := by
  have read : (loadAsIs p r m).map (Prod.map id Recorded.state) = Lowering.loadAsIs p r m.state := by
    unfold loadAsIs Lowering.loadAsIs
    cases p.slots.slot r with
    | error fault => rfl
    | ok slot =>
      cases m.state.register r with
      | error fault => rfl
      | ok held =>
        cases held with
        | typed type =>
          simp only [ok_bind]
          cases kindOf type <;> rfl
        | _ => rfl
  rw [← read]
  exact map_bind_of _ fun x => same x.1 x.2

theorem erase_storeAs (p : Plan) (r : Nat) (held : RegisterState) (m : Recorded) :
    erase (storeAs p r held m) = Lowering.storeAs p r held m.state := by
  refine erase_given _ fun slot => ?_
  cases held with
  | unknown => rfl
  | typed type => exact erase_lift m _
  | open32 g | open64 g => exact erase_lift _ _

theorem erase_constant (p : Plan) (r : Nat) (value : Constant) (wide : Bool) (m : Recorded) :
    erase (constant p r value wide m) = Lowering.constant p r value wide m.state := erase_storeAs ..

theorem erase_move (p : Plan) (kind : MoveKind) (dest source : Nat) (m : Recorded) :
    erase (move p kind dest source m) = Lowering.move p kind dest source m.state := by
  have copied : ∀ m : Recorded, erase (loadAsIs p source m >>= fun read =>
      if read.1.isWide ≠ decide (kind = MoveKind.wide) then
        refuse (.moveWidth (decide (kind = MoveKind.wide)) source read.1) >>= fun _ : PUnit => storeAs p dest read.1 read.2
      else storeAs p dest read.1 read.2) = Lowering.loadAsIs p source m.state >>= fun read =>
      if read.1.isWide ≠ decide (kind = MoveKind.wide) then
        refuse (.moveWidth (decide (kind = MoveKind.wide)) source read.1) >>= fun _ : PUnit => Lowering.storeAs p dest read.1 read.2
      else Lowering.storeAs p dest read.1 read.2 :=
    fun m => erase_loadAsIs fun held n => erase_guard (erase_storeAs p dest held n)
  unfold move Lowering.move
  split
  · refine erase_given _ fun held => ?_
    cases held.group? with
    | none => exact copied m
    | some g => exact erase_lift_then copied
  · exact copied m

theorem erase_jumpOnOpen (g : Group) (condition : Condition) (target : Label) (m : Recorded) :
    erase (jumpOnOpen g condition target m) = Lowering.jumpOnOpen g condition target m.state :=
  erase_lift_then fun _ => rfl

theorem erase_test (p : Plan) (op : TestOp) (left right : Nat) (target : Label) (m : Recorded) :
    erase (test p op left right target m) = Lowering.test p op left right target m.state := by
  have loaded : ∀ (type : Descriptor) (condition : Condition), erase (do
      let m ← m.lift (load p left type)
      let m ← m.lift (load p right type)
      m.lift (jumpOn condition target)) = (do
      let s ← load p left type m.state
      let s ← load p right type s
      jumpOn condition target s) :=
    fun type condition => erase_lift_then fun n => erase_lift_then fun u => erase_lift u _
  refine erase_given _ fun x => erase_given _ fun y => ?_
  cases (referenceType? x).or (referenceType? y) with
  | some type => exact erase_guard (loaded type _)
  | none =>
    cases x.group? with
    | none => exact loaded .int _
    | some ga =>
      cases y.group? with
      | none => exact loaded .int _
      | some gb =>
        dsimp only
        split
        · exact erase_loadAsIs fun _ n => erase_loadAsIs fun _ u => erase_jumpOnOpen _ _ target u
        · exact loaded .int _

theorem erase_testZero (p : Plan) (op : TestOp) (r : Nat) (target : Label) (m : Recorded) :
    erase (testZero p op r target m) = Lowering.testZero p op r target m.state := by
  have loaded : ∀ (type : Descriptor) (condition : Condition), erase (do
      let m ← m.lift (load p r type)
      m.lift (jumpOn condition target)) = (do
      let s ← load p r type m.state
      jumpOn condition target s) :=
    fun type condition => erase_lift_then fun n => erase_lift n _
  refine erase_given _ fun held => ?_
  cases held with
  | unknown | open64 g => exact loaded .int _
  | typed type =>
    dsimp only
    split
    · exact erase_guard (loaded type _)
    · exact loaded .int _
  | open32 g =>
    dsimp only
    split
    · exact erase_loadAsIs fun _ n => erase_jumpOnOpen _ _ target n
    · exact loaded .int _

theorem erase_step (p : Plan) (i : Instruction) (m : Recorded) : erase (step p i m) = Lowering.step p i m.state := by
  cases i with
  | move kind dest source => exact erase_move p kind dest source m
  | const dest value => exact erase_constant p dest (.int value) false m
  | constWide dest value => exact erase_constant p dest (.long value) true m
  | test op left right target => exact erase_test p op left right target m
  | testZero op r target => exact erase_testZero p op r target m
  | _ => exact erase_lift m _

theorem erase_within (context : Context) (x : Except Fault Recorded) : erase (within context x) = within context (erase x) := by
  cases x <;> rfl

theorem erase_place (p : Plan) (m : Recorded) (item : BodyItem) : erase (place p m item) = Lowering.place p m.state item := by
  cases item with
  | label address label => exact erase_lift m _
  | instruction address opcode i =>
    have entered : ∀ m : Recorded, erase (do
        let m ← m.lift (State.arriveAll · (p.handlers.covering address) .handler)
        let m ← within (.instruction opcode.name address) (step p i m)
        return { m with state := { m.state with terminal := endsTerminal m.state.draft } }) = (do
        let s ← m.state.arriveAll (p.handlers.covering address) .handler
        let s ← within (.instruction opcode.name address) (Lowering.step p i s)
        return { s with terminal := endsTerminal s.draft }) := by
      refine fun m => erase_lift_then fun n => ?_
      rw [← erase_step,← erase_within]
      exact erase_then _ fun u => rfl
    unfold place placeInstruction Lowering.place Lowering.placeInstruction
    dsimp only
    split
    · exact entered m
    · exact entered { m with state := m.state.discardPending }

theorem erase_items (p : Plan) (items : List BodyItem) (m : Recorded) :
    erase (items.foldlM (place p) m) = items.foldlM (Lowering.place p) m.state := by
  induction items generalizing m with
  | nil => rfl
  | cons item rest ih =>
    rw [List.foldlM_cons,List.foldlM_cons,← erase_place]
    exact erase_then _ ih

theorem erase_finish (p : Plan) (m : Recorded) (body : DecodedBody) :
    erase (finish p m body) = Lowering.finish p m.state body := by
  have folded : erase (body.foldlM (place p) m) = body.foldlM (Lowering.place p) m.state := by
    unfold DecodedBody.foldlM
    rw [← erase_items]
    exact erase_then _ fun n => erase_given _ fun _ => rfl
  unfold finish Lowering.finish
  rw [← folded]
  exact erase_then _ fun n => erase_lift n _

theorem of_erased {x : Except Fault Recorded} (done : erase x = .ok t) : ∃ log, x = .ok ⟨t,log⟩ := by
  cases x with
  | error fault => cases done
  | ok m =>
    cases done
    exact ⟨m.log,rfl⟩

end Recorded

-- The record is right all along: what it says of each placeholder holds, and an open group waits for
-- nothing else.
structure Kept (p : Plan) (m : Recorded) : Prop where
  valid : m.state.Valid (fun _ => True) p
  patched : Patched m.state.draft m.log

theorem enterLabel_kept {label : Label} {isTarget : Bool} (kept : Kept p ⟨s,log⟩) (done : enterLabel label isTarget s = .ok t) :
    Kept p ⟨t,log⟩ := by
  obtain ⟨valid,patched⟩ := kept
  rcases enterLabel_ok.mp done with ⟨stored,found,-,rfl⟩ | ⟨stored,joined,d,found,-,merged,rfl⟩ | ⟨-,rfl⟩
  · obtain ⟨known,size⟩ := valid.joins _ _ found
    exact ⟨⟨valid.draft,known,size,valid.joins,valid.pending⟩,patched⟩
  · obtain ⟨known,size⟩ := valid.joins _ _ found
    have result := Frame.merge_merged valid.draft trivial known valid.frame merged
    have base := valid.withDraft (result.settles.sound valid.draft) (result.settles.extends valid.draft)
    refine ⟨⟨base.draft,result.valid,result.size.trans size,?_,base.pending⟩,patched.settles result.settles⟩
    intro n f got
    rw [NatMap.get?_insert] at got
    split at got
    · cases got
      exact ⟨result.valid,result.size.trans size⟩
    · exact base.joins n f got
  · split
    · refine ⟨⟨valid.draft,valid.frame,valid.size,?_,valid.pending⟩,patched⟩
      intro n f got
      rw [NatMap.get?_insert] at got
      split at got
      · cases got
        exact ⟨valid.frame,valid.size⟩
      · exact valid.joins n f got
    · exact ⟨valid,patched⟩

theorem kept_basic (p : Plan) (log : List Placeholder) :
    BasicInvariant p (fun s => Kept p ⟨s,log⟩) fun d held => held.Valid (fun _ => True) d where
  push := by
    rintro s event ⟨valid,patched⟩
    exact ⟨valid.withDraft (sound_push valid.draft _) (Draft.extends_push _ _),patched.push event⟩
  pending := by
    rintro s left ⟨valid,patched⟩
    exact ⟨⟨valid.draft,valid.frame,valid.size,valid.joins,fun _ _ => trivial⟩,patched⟩
  terminal := by
    rintro s flag ⟨valid,patched⟩
    exact ⟨⟨valid.draft,valid.frame,valid.size,valid.joins,valid.pending⟩,patched⟩
  resolve := by
    rintro s t r held g type ⟨valid,patched⟩ got group - done
    obtain ⟨has,free⟩ := (register_state valid got).2 g group
    have known := (resolve_evolves has trivial done).1.valid trivial valid
    simp only [State.resolve,bind_eq_ok,pure_eq_ok] at done
    obtain ⟨d,resolved,rfl⟩ := done
    exact ⟨known,patched.resolve has free resolved⟩
  write := by
    rintro s t r held ⟨valid,patched⟩ known done
    have after := setRegister_valid valid known done
    obtain ⟨f,-,rfl⟩ := setRegister_frame done
    exact ⟨after,patched⟩
  arrive := by
    rintro label arrival s t ⟨valid,patched⟩ done
    have after := arrive_valid trivial valid done
    obtain ⟨joined,d,rfl,arrived⟩ := arrive_arrived trivial valid done
    exact ⟨after,patched.settles arrived.settles⟩
  enter := fun _ _ _ _ kept done => enterLabel_kept kept done
  typed := fun _ _ => trivial

theorem Kept.calm (p : Plan) (log : List Placeholder) : Calm p (Itself fun s => Kept p ⟨s,log⟩) := (kept_basic p log).itself.calm

theorem lift_ok {f : State → Except Fault State} (done : m.lift f = .ok n) : ∃ t, f m.state = .ok t ∧ n = { m with state := t } := by
  simp only [Recorded.lift,bind_eq_ok,pure_eq_ok] at done
  obtain ⟨t,stepped,rfl⟩ := done
  exact ⟨t,stepped,rfl⟩

namespace Kept

theorem lift {f : State → Except Fault State} (kept : Kept p m)
    (respects : Respects (Itself fun s => Kept p ⟨s,m.log⟩) (Itself fun s => Kept p ⟨s,m.log⟩) f) (done : m.lift f = .ok n) : Kept p n := by
  obtain ⟨t,stepped,rfl⟩ := lift_ok done
  exact itself_respects.mp respects m.state t kept stepped

theorem emitSite (kept : Kept p m) (has : m.state.draft.Has g) {i : Insn} (plain : i.untyped = i)
    (timely : m.state.draft.resolution? g = none ∨ ∃ condition target, i = .jump condition target) :
    Kept p (m.emitSite g i) :=
  ⟨(Evolves.site .refl has plain timely).valid trivial kept.valid,kept.patched.site has plain timely⟩

def Free (d : Draft) (held : RegisterState) : Prop := ∀ g, held.group? = some g → d.Has g ∧ d.resolution? g = none

theorem loadAsIs (kept : Kept p m) (done : Recorded.loadAsIs p r m = .ok (held,n)) :
    Kept p n ∧ Free n.state.draft held ∧ ∀ g, m.state.draft.Has g → n.state.draft.Has g := by
  simp only [Recorded.loadAsIs,bind_eq_ok] at done
  obtain ⟨slot,-,found,got,done⟩ := done
  have free := (register_state kept.valid got).2
  have waits : ∀ g i, found.group? = some g → i.untyped = i → held = found → n = m.emitSite g i →
      Kept p n ∧ Free n.state.draft held ∧ ∀ g, m.state.draft.Has g → n.state.draft.Has g := by
    rintro g i group plain rfl rfl
    obtain ⟨has,isOpen⟩ := free g group
    have same : ∀ h, m.state.draft.Has h → (m.emitSite g i).state.draft.Has h := by
      intro h has
      simpa [Recorded.emitSite,State.emitSite,Draft.pushSite] using has
    refine ⟨kept.emitSite has plain (.inl isOpen),?_,same⟩
    intro h other
    rw [group] at other
    cases other
    exact ⟨same g has,by simpa [Recorded.emitSite,State.emitSite,Draft.pushSite] using isOpen⟩
  cases found with
  | unknown => simp at done
  | typed type =>
    simp only [bind_eq_ok,pure_eq_ok,Prod.mk.injEq] at done
    obtain ⟨kind,-,rfl,rfl⟩ := done
    exact ⟨(kept_basic p m.log).push m.state _ kept,by simp [Free,RegisterState.group?],fun _ has => has⟩
  | open32 g | open64 g =>
    simp only [pure_eq_ok,Prod.mk.injEq] at done
    exact waits g _ rfl rfl done.1.symm done.2.symm

theorem storeAs (kept : Kept p m) (free : Free m.state.draft held) (done : Recorded.storeAs p r held m = .ok n) :
    Kept p n := by
  simp only [Recorded.storeAs,bind_eq_ok] at done
  obtain ⟨slot,-,done⟩ := done
  have waits : ∀ g i, held.group? = some g → i.untyped = i →
      (m.emitSite g i).lift (State.setRegister · r held) = .ok n → Kept p n := by
    intro g i group plain done
    obtain ⟨has,isOpen⟩ := free g group
    have there : (m.emitSite g i).state.draft.Has g := by
      simpa [Recorded.emitSite,State.emitSite,Draft.pushSite] using has
    obtain ⟨t,written,rfl⟩ := lift_ok done
    exact (kept_basic p _).write _ t r held (kept.emitSite has plain (.inl isOpen)) (RegisterState.valid_of_group group there) written
  cases held with
  | unknown => simp at done
  | typed type => exact kept.lift ((calm p _).store r type) done
  | open32 g | open64 g => exact waits g _ rfl rfl done

theorem constant {value : Constant} {wide : Bool} (kept : Kept p m) (plain : value.untyped = value)
    (done : Recorded.constant p r value wide m = .ok n) : Kept p n := by
  have fresh := Draft.has_fresh m.state.draft wide
  have free := Draft.newGroup_open m.state.draft wide
  have grown : Kept p { m with state := { m.state with draft := (m.state.draft.newGroup wide).2 } } :=
    ⟨(Evolves.group wide .refl).valid trivial kept.valid,kept.patched.newGroup wide⟩
  have pushed := grown.emitSite fresh (i := .const value) (by simp [Insn.untyped,plain]) (.inl free)
  refine storeAs pushed ?_ done
  have there : Draft.Has ((m.state.draft.newGroup wide).2.pushSite (m.state.draft.newGroup wide).1 (.const value))
      (m.state.draft.newGroup wide).1 := by
    simpa [Draft.pushSite] using fresh
  have still : Draft.resolution? ((m.state.draft.newGroup wide).2.pushSite (m.state.draft.newGroup wide).1 (.const value))
      (m.state.draft.newGroup wide).1 = none := by
    simpa [Draft.pushSite] using free
  intro g same
  cases wide with
  | false | true =>
    cases same
    exact ⟨there,still⟩

theorem move {kind : MoveKind} {dest source : Nat} (kept : Kept p m) (done : Recorded.move p kind dest source m = .ok n) :
    Kept p n := by
  have copied : ∀ m, Kept p m → (∃ read : RegisterState × Recorded, Recorded.loadAsIs p source m = .ok read ∧
      ¬(read.1.isWide ≠ decide (kind = .wide)) ∧ Recorded.storeAs p dest read.1 read.2 = .ok n) → Kept p n := by
    rintro m kept ⟨⟨held,u⟩,read,-,written⟩
    obtain ⟨after,free,-⟩ := kept.loadAsIs read
    exact after.storeAs free written
  simp only [Recorded.move] at done
  split at done
  · simp only [bind_eq_ok] at done
    obtain ⟨held,got,done⟩ := done
    split at done
    · rename_i g group
      simp only [bind_eq_ok,guard_eq_ok] at done
      obtain ⟨u,resolved,rest⟩ := done
      obtain ⟨t,settled,rfl⟩ := lift_ok resolved
      refine copied _ ((kept_basic p m.log).resolve m.state t source held g object kept got group ?_ settled) rest
      exact fun wide => absurd wide (by decide)
    · simp only [pure_bind,bind_eq_ok,guard_eq_ok] at done
      exact copied m kept done
  · simp only [pure_bind,bind_eq_ok,guard_eq_ok] at done
    exact copied m kept done

-- The jump comes after control has arrived at its target, when its group may have a type.
theorem jumpOnOpen {condition : Condition} {target : Label} (kept : Kept p m) (has : m.state.draft.Has g)
    (plain : condition.untyped = condition) (done : Recorded.jumpOnOpen g condition target m = .ok n) : Kept p n := by
  simp only [Recorded.jumpOnOpen,bind_eq_ok,pure_eq_ok] at done
  obtain ⟨u,lifted,rfl⟩ := done
  obtain ⟨t,arrived,rfl⟩ := lift_ok lifted
  have after := (kept_basic p m.log).arrive target .branch m.state t kept arrived
  obtain ⟨joined,d,rfl,landed⟩ := arrive_arrived trivial kept.valid arrived
  exact after.emitSite (landed.settles.has.mpr has) (by simp [Insn.untyped,plain]) (.inr ⟨condition,target,rfl⟩)

theorem test {op : TestOp} {left right : Nat} {target : Label} (kept : Kept p m)
    (done : Recorded.test p op left right target m = .ok n) : Kept p n := by
  have loaded : ∀ {type condition}, (∃ u, m.lift (load p left type) = .ok u ∧ ∃ v, u.lift (load p right type) = .ok v ∧
      v.lift (jumpOn condition target) = .ok n) → Kept p n := by
    rintro type condition ⟨u,one,v,two,jumped⟩
    have read := (kept.lift ((calm p _).load left type) one).lift ((calm p _).load right type) two
    exact read.lift ((calm p _).jumpOn _ target) jumped
  simp only [Recorded.test,bind_eq_ok] at done
  obtain ⟨x,first,y,second,done⟩ := done
  split at done
  · simp only [guard_eq_ok,bind_eq_ok] at done
    exact loaded done.2
  · split at done
    · rename_i ga gb one two
      split at done
      · obtain ⟨hasLeft,openLeft⟩ := (register_state kept.valid first).2 ga one
        obtain ⟨hasRight,openRight⟩ := (register_state kept.valid second).2 gb two
        have joined : Kept p { m with state := { m.state with draft := (m.state.draft.union ga gb).2 } } :=
          ⟨(Evolves.settle .refl (Draft.settles_union hasLeft hasRight openLeft openRight)).valid trivial kept.valid,
            kept.patched.union hasLeft hasRight openLeft openRight⟩
        simp only [bind_eq_ok] at done
        obtain ⟨⟨_,u⟩,readLeft,⟨_,v⟩,readRight,jumped⟩ := done
        obtain ⟨keptLeft,-,grown⟩ := joined.loadAsIs readLeft
        obtain ⟨keptRight,-,further⟩ := keptLeft.loadAsIs readRight
        refine keptRight.jumpOnOpen (further _ (grown _ ?_)) rfl jumped
        simpa using kept.patched.rooted.has_root hasLeft
      · simp only [bind_eq_ok] at done
        exact loaded done
    · simp only [bind_eq_ok] at done
      exact loaded done

theorem testZero {op : TestOp} {target : Label} (kept : Kept p m) (done : Recorded.testZero p op r target m = .ok n) :
    Kept p n := by
  have loaded : ∀ {type condition}, (∃ u, m.lift (load p r type) = .ok u ∧ u.lift (jumpOn condition target) = .ok n) →
      Kept p n := by
    rintro type condition ⟨u,one,jumped⟩
    exact (kept.lift ((calm p _).load r type) one).lift ((calm p _).jumpOn _ target) jumped
  simp only [Recorded.testZero,bind_eq_ok] at done
  obtain ⟨held,got,done⟩ := done
  split at done
  · split at done
    · simp only [guard_eq_ok,bind_eq_ok] at done
      exact loaded done.2
    · simp only [bind_eq_ok] at done
      exact loaded done
  · rename_i g
    split at done
    · simp only [bind_eq_ok] at done
      obtain ⟨⟨_,u⟩,read,jumped⟩ := done
      obtain ⟨after,-,grown⟩ := kept.loadAsIs read
      exact after.jumpOnOpen (grown g ((register_state kept.valid got).2 g rfl).1) rfl jumped
    · simp only [bind_eq_ok] at done
      exact loaded done
  · simp only [bind_eq_ok] at done
    exact loaded done

theorem step {i : Instruction} (kept : Kept p m) (done : Recorded.step p i m = .ok n) : Kept p n := by
  cases waits : mayWait i with
  | true =>
    cases i with
    | move kind dest source => exact kept.move done
    | const dest value =>
      have done : Recorded.constant p dest (.int value) false m = .ok n := done
      exact kept.constant rfl done
    | constWide dest value =>
      have done : Recorded.constant p dest (.long value) true m = .ok n := done
      exact kept.constant rfl done
    | test op left right target => exact kept.test done
    | testZero op r target => exact kept.testZero done
    | _ => cases waits
  | false =>
    have lifted : m.lift (Lowering.step p i) = .ok n := by
      cases i <;> first | exact done | cases waits
    exact kept.lift ((calm p _).step i waits) lifted

theorem place (kept : Kept p m) (done : Recorded.place p m item = .ok n) : Kept p n := by
  cases item with
  | label address label => exact kept.lift (itself_respects.mpr ((kept_basic p _).lasting.placeLabel address label)) done
  | instruction address opcode i =>
    simp only [Recorded.place,Recorded.placeInstruction,bind_eq_ok,pure_eq_ok,within_eq_ok] at done
    obtain ⟨u,heard,v,stepped,rfl⟩ := done
    have cleared : Kept p (if takesPending i then m else { m with state := m.state.discardPending }) := by
      split
      · exact kept
      · exact (kept_basic p m.log).lasting.discardPending kept
    have entered := cleared.lift ((calm p _).arriveAll _ .handler) heard
    exact (kept_basic p v.log).terminal v.state _ (entered.step stepped)

theorem run (kept : Kept p m) (ran : items.foldlM (Recorded.place p) m = .ok n) : Kept p n :=
  foldlM_keeps (P := Kept p) (fun _ _ _ _ before done => before.place done) kept ran

end Kept

-- What holds of some record of each state of a run.

theorem Tended.run (valid : s.Valid (fun _ => True) p) (tended : Tended s.draft) (ran : items.foldlM (Lowering.place p) s = .ok t) :
    Tended t.draft := by
  obtain ⟨log,patched⟩ := tended
  obtain ⟨next,recorded⟩ := Recorded.of_erased ((Recorded.erase_items p items ⟨s,log⟩).trans ran)
  exact ⟨next,(Kept.run ⟨valid,patched⟩ recorded).patched⟩

-- In the end every group has its type.

theorem finish_kept {c : Container} {shape : MethodShape} {code : CodeItem} {labels : LabelTable} {start : State}
    {body : DecodedBody} (prepared : prepare c shape code labels = .ok (p,start))
    (finished : Recorded.finish p { state := start } body = .ok n) :
    Patched n.state.draft n.log ∧ ∀ ph ∈ n.log, ∃ type, n.state.draft.resolution? ph.group = some type := by
  have valid : start.Valid (fun _ => True) p := prepare_valid (fun _ _ => trivial) (fun _ => trivial) prepared
  have empty : Patched start.draft [] := by
    simp only [prepare,bind_eq_ok,pure_eq_ok,Prod.mk.injEq] at prepared
    obtain ⟨slots,-,f,-,handlers,-,-,rfl⟩ := prepared
    exact patched_empty
  simp only [Recorded.finish,DecodedBody.foldlM,bind_eq_ok,pure_eq_ok] at finished
  obtain ⟨m,⟨_,ran,_,-,rfl⟩,lifted⟩ := finished
  obtain ⟨t,resolved,rfl⟩ := lift_ok lifted
  have kept := Kept.run ⟨valid,empty⟩ ran
  simp only [bind_eq_ok,pure_eq_ok] at resolved
  obtain ⟨d,resolved,rfl⟩ := resolved
  obtain ⟨settles,known⟩ := Draft.resolveDefaults_settles kept.valid.draft (fun _ => trivial) resolved
  refine ⟨kept.patched.settles settles,?_⟩
  intro ph member
  exact known _ (settles.has.mpr (kept.patched.formed ph member).has)

theorem retype_jump_self {condition : Condition} {target : Label} (plain : condition.untyped = condition)
    (shown : Insn.retype (.jump condition target) type = .ok (.jump condition target)) : type.kind? = some .int := by
  unfold Insn.retype at shown
  split at shown
  · simp at shown
  · rename_i kind known
    cases kind <;> cases condition <;> simp_all [Condition.untyped,Condition.retype?]
    all_goals
      rename_i comparison
      cases comparison <;> simp_all

theorem retype_jump_int (condition : Condition) (target : Label) (int : type.kind? = some .int) :
    Insn.retype (.jump condition target) type = .ok (.jump condition target) := by
  simp [Insn.retype,int,Condition.retype?]

-- In a finished body every placeholder has the form that its type asks for,
-- except a jump that was emitted when its group had its type already: that one
-- keeps the form for ints, whatever the type.
theorem placeholder_form_exact {c : Container} {shape : MethodShape} {code : CodeItem} {labels : LabelTable}
    {start : State} {body : DecodedBody} (prepared : prepare c shape code labels = .ok (p,start))
    (finished : finish p start body = .ok t) :
    lower p start body = .ok t.draft.events.toList ∧
      ∃ log, Recorded.finish p { state := start } body = .ok ⟨t,log⟩ ∧ ∀ ph ∈ log, ∃ type final,
        t.draft.resolution? ph.group = some type ∧ t.draft.events.toList[ph.position]? = some (.insn final) ∧
        (ph.insn.retype type = .ok final ↔ ph.known = none ∨ type.kind? = some .int) ∧
        (ph.known ≠ none → ph.known = some type ∧ final = ph.insn ∧ ∃ condition target, ph.insn = .jump condition target) := by
  refine ⟨by simp [lower,finished],?_⟩
  obtain ⟨log,recorded⟩ := Recorded.of_erased ((Recorded.erase_finish p { state := start } body).trans finished)
  refine ⟨log,recorded,?_⟩
  obtain ⟨patched,resolved⟩ := finish_kept prepared recorded
  intro ph member
  have formed := patched.formed ph member
  obtain ⟨type,told⟩ := resolved ph member
  by_cases early : ph.known = none
  · obtain ⟨final,retyped,event⟩ := formed.retyped type told early
    exact ⟨type,final,told,by simpa using event,by simp [retyped,early],fun late => absurd early late⟩
  · obtain ⟨known,event⟩ := formed.left type told early
    obtain ⟨condition,target,jump⟩ := formed.early early
    refine ⟨type,ph.insn,told,by simpa using event,?_,fun _ => ⟨known,rfl,condition,target,jump⟩⟩
    have plain : condition.untyped = condition := by simpa [jump,Insn.untyped] using formed.plain
    rw [jump]
    constructor
    · intro shown
      exact .inr (retype_jump_self plain shown)
    · rintro (nothing | int)
      · exact absurd nothing early
      · exact retype_jump_int condition target int

-- An object in v1 and an int in v2. A first jump on v2 brings the object, copied
-- to v0, to address 7; then v0 becomes zero and a second jump goes to address 7 on
-- it. Arriving there, the zero meets the object and is a null reference.
def lateJump : CodeItem where
  registers := 3
  ins := 2
  outs := 0
  debugInfo := 0
  units := #[0x1007,0x0238,0x0006,0x0012,0x0038,0x0003,0x000e,0x000e]
  tries := []
  handlers := []

def lateJumpShape : MethodShape := ⟨.object "a/T",true,⟨[.object "java/lang/Object",.int],.void⟩⟩

theorem placeholder_form_exact_lateJump :
    ∃ labels p start t log, LabelTable.scan lateJump = .ok labels ∧
      prepare bare lateJumpShape lateJump labels = .ok (p,start) ∧
      finish p start (DecodedBody.ofCode bare lateJump.units labels) = .ok t ∧
      Recorded.finish p { state := start } (DecodedBody.ofCode bare lateJump.units labels) = .ok ⟨t,log⟩ ∧ log.length = 4 ∧
      ∀ ph ∈ log, ∃ type final,
        t.draft.resolution? ph.group = some type ∧ t.draft.events.toList[ph.position]? = some (.insn final) ∧
        (ph.insn.retype type = .ok final ↔ ph.known = none ∨ type.kind? = some .int) ∧
        (ph.known ≠ none → ph.known = some type ∧ final = ph.insn ∧ ∃ condition target, ph.insn = .jump condition target) := by
  obtain ⟨labels,p,start,t,log,scanned,prepared,finished,recorded,four⟩ : ∃ labels p start t log,
      LabelTable.scan lateJump = .ok labels ∧ prepare bare lateJumpShape lateJump labels = .ok (p,start) ∧
        finish p start (DecodedBody.ofCode bare lateJump.units labels) = .ok t ∧
        Recorded.finish p { state := start } (DecodedBody.ofCode bare lateJump.units labels) = .ok ⟨t,log⟩ ∧ log.length = 4 :=
    ⟨_,_,_,_,_,rfl,rfl,rfl,rfl,rfl⟩
  obtain ⟨-,_,same,formed⟩ := placeholder_form_exact prepared finished
  rw [recorded] at same
  cases same
  exact ⟨labels,p,start,t,log,scanned,prepared,finished,recorded,four,formed⟩

-- The second jump compares a reference with zero as if it were an int.
theorem lateJump_keeps_int_form :
    ∃ labels p start t log, LabelTable.scan lateJump = .ok labels ∧
      prepare bare lateJumpShape lateJump labels = .ok (p,start) ∧
      Recorded.finish p { state := start } (DecodedBody.ofCode bare lateJump.units labels) = .ok ⟨t,log⟩ ∧
      lower p start (DecodedBody.ofCode bare lateJump.units labels) = .ok t.draft.events.toList ∧
      ∃ ph ∈ log, ∃ type final, t.draft.resolution? ph.group = some type ∧ type.kind? = some .reference ∧
        t.draft.events.toList[ph.position]? = some (.insn (.jump (.zero .eq) ⟨1⟩)) ∧
        ph.insn.retype type = .ok final ∧ final = .jump .null ⟨1⟩ := by
  refine ⟨_,_,_,_,_,rfl,rfl,rfl,rfl,⟨8,⟨0⟩,.jump (.zero .eq) ⟨1⟩,some (.object "java/lang/Object")⟩,?_,
    _,_,rfl,rfl,rfl,rfl,rfl⟩
  exact List.mem_of_getElem? (i := 3) rfl

end Restack.Lowering
