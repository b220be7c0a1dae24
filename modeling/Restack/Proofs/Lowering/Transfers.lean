import Mathlib
import Restack.Proofs.Lowering.Invariant

namespace Restack.Lowering

-- The transfers between registers and the stack, and the jumps on registers. They are put together from the calls on a draft, from
-- writing registers and from arriving, so what those respect is steady.

variable {p : Plan} {I : State → Prop} {R : State → State → Prop} {K : Draft → RegisterState → Prop} {s t : State}

-- `K` is what is known of a value on the stack. Groups are only joined, and only get their type, when an open register was read.
structure Basic (p : Plan) (R : State → State → Prop) (K : Draft → RegisterState → Prop) : Prop where
  register : ∀ s t r, R s t → s.register r = t.register r
  waiting : ∀ s t, R s t → s.pending = t.pending
  emit : ∀ s t i, R s t → R (s.emit i) (t.emit i)
  pending : ∀ s t left, R s t → R { s with pending := left } { t with pending := left }
  resolve : ∀ r state g type, state.group? = some g → (type.isWide = true → state.isWide = true) →
    Respects (fun s t => R s t ∧ s.register r = .ok state) R fun s => s.resolve g type
  write : ∀ r state, Respects (fun s t => R s t ∧ K s.draft state) R fun s => s.setRegister r state
  arrive : ∀ label arrival, Respects R R fun s => s.arrive label arrival
  typed : ∀ d type, K d (.typed type)

structure Elementary (p : Plan) (R : State → State → Prop) (K : Draft → RegisterState → Prop) : Prop extends Basic p R K where
  site : ∀ s t g i, R s t → R (s.emitSite g i) (t.emitSite g i)
  group : ∀ s t wide, R s t → (s.draft.newGroup wide).1 = (t.draft.newGroup wide).1 ∧
    R { s with draft := (s.draft.newGroup wide).2 } { t with draft := (t.draft.newGroup wide).2 }
  union : ∀ s t left right a b ga gb, R s t → s.register left = .ok a → s.register right = .ok b → a.group? = some ga →
    b.group? = some gb → a.isWide = b.isWide → (s.draft.union ga gb).1 = (t.draft.union ga gb).1 ∧
      R { s with draft := (s.draft.union ga gb).2 } { t with draft := (t.draft.union ga gb).2 }
  fresh : ∀ d wide, K (Draft.newGroup d wide).2 (if wide then .open64 (d.newGroup wide).1 else .open32 (d.newGroup wide).1)
  read : ∀ s t r state, R s t → s.register r = .ok state → K s.draft state
  waits : ∀ d g i state, K d state → K (d.pushSite g i) state

namespace Basic

variable (parts : Basic p R K)
include parts

theorem emitted (i : Insn) : Respects R R fun s => .ok (s.emit i) := .done fun s t => parts.emit s t i

theorem reinterpret (r : Nat) (held want : Kind) : Respects R R (reinterpret r held want) := by
  refine .ite .same ?_
  cases reinterpretation? held want with
  | none => exact .refused _
  | some call => exact parts.emitted _

theorem load (r : Nat) (type : Descriptor) : Respects R R (load p r type) := by
  refine .given fun want => .given fun slot => .looked (fun s t => parts.register s t r) fun state => ?_
  have opened : ∀ g, state.group? = some g →
      Respects (fun s t => R s t ∧ s.register r = .ok state) R (loadOpen r slot state g type want) := by
    refine fun g group => .guarded fun even => .andThen (parts.resolve r state g type group ?_) (parts.emitted _)
    exact fun wide => (not_not.mp even).trans wide
  cases state with
  | unknown => exact .refused _
  | typed held => exact .given fun kind => .after (fun s t both => parts.emit s t _ both.1) (parts.reinterpret r kind want)
  | open32 g | open64 g => exact opened g rfl

theorem store (r : Nat) (type : Descriptor) : Respects R R (store p r type) :=
  .given fun _ => .given fun _ => .after (fun s t related => ⟨parts.emit s t _ related,parts.typed _ type⟩) (parts.write r _)

theorem calm : Calm p R where
  register := parts.register
  waiting := parts.waiting
  emit := parts.emit
  pending := parts.pending
  load := parts.load
  store := parts.store
  arrive := parts.arrive

end Basic

namespace Elementary

variable (parts : Elementary p R K)
include parts

theorem loadAsIs (r : Nat) : RespectsWith R (fun state s t => R s t ∧ K s.draft state) (loadAsIs p r) := by
  intro s t state m related done
  simp only [Lowering.loadAsIs,bind_eq_ok,← parts.register s t r related] at done ⊢
  obtain ⟨slot,placed,held,got,done⟩ := done
  have value := parts.read s t r held related got
  cases held with
  | unknown => simp at done
  | typed type =>
    simp only [bind_eq_ok,pure_eq_ok,Prod.mk.injEq] at done
    obtain ⟨kind,known,rfl,rfl⟩ := done
    refine ⟨_,⟨slot,placed,_,got,?_⟩,parts.emit s t _ related,parts.typed _ type⟩
    simp [known]
  | open32 g | open64 g =>
    cases done
    exact ⟨_,⟨slot,placed,_,got,rfl⟩,parts.site s t g _ related,parts.waits s.draft g _ _ value⟩

theorem storeAs (r : Nat) (state : RegisterState) : Respects (fun s t => R s t ∧ K s.draft state) R (storeAs p r state) := by
  refine .given fun slot => ?_
  cases state with
  | unknown => exact .refused _
  | typed type => exact (parts.store r type).weaken fun _ _ both => both.1
  | open32 g | open64 g =>
    exact .after (fun s t both => ⟨parts.site s t g _ both.1,parts.waits s.draft g _ _ both.2⟩) (parts.write r _)

theorem constant (r : Nat) (value : Constant) (wide : Bool) : Respects R R (constant p r value wide) := by
  intro s t m related done
  obtain ⟨same,grown⟩ := parts.group s t wide related
  unfold Lowering.constant at done ⊢
  dsimp only at done ⊢
  rw [← same]
  exact parts.storeAs r _ _ _ m ⟨parts.site _ _ _ _ grown,parts.waits _ _ _ _ (parts.fresh s.draft wide)⟩ done

theorem move (kind : MoveKind) (dest source : Nat) : Respects R R (move p kind dest source) := by
  have copied : ∀ state : RegisterState, Respects (fun s t => R s t ∧ K s.draft state) R fun s =>
      if state.isWide ≠ decide (kind = .wide) then refuse (.moveWidth (decide (kind = .wide)) source state) >>= fun _ : PUnit =>
        Lowering.storeAs p dest state s
      else Lowering.storeAs p dest state s := fun state => .guarded fun _ => parts.storeAs dest state
  have rest := Respects.told (parts.loadAsIs source) copied
  unfold Lowering.move
  refine .ite (.looked (fun s t => parts.register s t source) fun state => ?_) (Respects.same.andThen rest)
  cases group : state.group? with
  | none => exact (Respects.same.andThen rest).weaken fun _ _ both => both.1
  | some g => exact (parts.resolve source state g object group fun wide => absurd wide (by decide)).andThen rest

theorem copied (r : Nat) {h : State → Except Fault State} (rest : Respects R R h) :
    Respects R R fun s => Lowering.loadAsIs p r s >>= fun read => h read.2 :=
  .told (parts.loadAsIs r) fun _ => rest.weaken fun _ _ both => both.1

theorem jumpOnOpen (g : Group) (condition : Condition) (target : Label) : Respects R R (jumpOnOpen g condition target) :=
  (parts.arrive target .branch).andThen (.done fun s t => parts.site s t g _)

theorem test (op : TestOp) (left right : Nat) (target : Label) : Respects R R (test p op left right target) := by
  have loaded : ∀ type condition, Respects R R fun s => Lowering.load p left type s >>= fun s =>
      Lowering.load p right type s >>= Lowering.jumpOn condition target := fun type condition =>
    (parts.load left type).andThen ((parts.load right type).andThen (parts.calm.jumpOn condition target))
  refine .looked (fun s t => parts.register s t left) fun a => .looked (fun s t both => parts.register s t right both.1) fun b => ?_
  have ints := (loaded .int (.ints op.comparison)).weaken fun s t
    (both : (R s t ∧ s.register left = .ok a) ∧ s.register right = .ok b) => both.1.1
  cases (referenceType? a).or (referenceType? b) with
  | some type => exact .guarded fun _ => (loaded type _).weaken fun _ _ both => both.1.1
  | none =>
    cases one : a.group? with
    | none => exact ints
    | some ga =>
      cases two : b.group? with
      | none => exact ints
      | some gb =>
        by_cases narrow : (op.isEquality && !a.isWide && !b.isWide) = true
        · simp only [narrow,if_true]
          simp only [Bool.and_eq_true,Bool.not_eq_true'] at narrow
          rintro s t m ⟨⟨related,first⟩,second⟩ done
          obtain ⟨same,joined⟩ := parts.union s t left right a b ga gb related first second one two (narrow.1.2.trans narrow.2.symm)
          dsimp only at done ⊢
          rw [← same]
          exact parts.copied left (parts.copied right (parts.jumpOnOpen _ _ target)) _ _ m joined done
        · simp only [narrow]
          exact ints

theorem testZero (op : TestOp) (r : Nat) (target : Label) : Respects R R (testZero p op r target) := by
  have loaded : ∀ type condition, Respects R R fun s => Lowering.load p r type s >>= Lowering.jumpOn condition target :=
    fun type condition => (parts.load r type).andThen (parts.calm.jumpOn condition target)
  refine parts.calm.looked fun state => ?_
  cases state with
  | unknown | open64 g => exact loaded .int _
  | typed type => exact .ite (.guarded fun _ => loaded type _) (loaded .int _)
  | open32 g => exact .ite (parts.copied r (parts.jumpOnOpen g _ target)) (loaded .int _)

theorem steady : Steady p R where
  toCalm := parts.calm
  constant := parts.constant
  move := parts.move
  test := parts.test
  testZero := parts.testZero

end Elementary

-- An invariant by what the calls keep.

structure BasicInvariant (p : Plan) (I : State → Prop) (K : Draft → RegisterState → Prop) : Prop where
  push : ∀ s event, I s → I { s with draft := s.draft.push event }
  pending : ∀ s left, I s → I { s with pending := left }
  terminal : ∀ s flag, I s → I { s with terminal := flag }
  resolve : ∀ s t r state g type, I s → s.register r = .ok state → state.group? = some g →
    (type.isWide = true → state.isWide = true) → s.resolve g type = .ok t → I t
  write : ∀ s t r state, I s → K s.draft state → s.setRegister r state = .ok t → I t
  arrive : ∀ label arrival, Maintains I fun s => s.arrive label arrival
  enter : ∀ label isTarget, Maintains I (enterLabel label isTarget)
  typed : ∀ d type, K d (.typed type)

structure ElementaryInvariant (p : Plan) (I : State → Prop) (K : Draft → RegisterState → Prop) : Prop extends BasicInvariant p I K where
  site : ∀ s g i, I s → I (s.emitSite g i)
  group : ∀ s wide, I s → I { s with draft := (s.draft.newGroup wide).2 }
  union : ∀ s left right a b ga gb, I s → s.register left = .ok a → s.register right = .ok b → a.group? = some ga →
    b.group? = some gb → a.isWide = b.isWide → I { s with draft := (s.draft.union ga gb).2 }
  fresh : ∀ d wide, K (Draft.newGroup d wide).2 (if wide then .open64 (d.newGroup wide).1 else .open32 (d.newGroup wide).1)
  read : ∀ s r state, I s → s.register r = .ok state → K s.draft state
  waits : ∀ d g i state, K d state → K (d.pushSite g i) state

theorem BasicInvariant.itself (parts : BasicInvariant p I K) : Basic p (Itself I) K where
  register := by
    rintro s _ r ⟨rfl,-⟩
    rfl
  waiting := by
    rintro s _ ⟨rfl,-⟩
    rfl
  emit := by
    rintro s _ i ⟨rfl,holds⟩
    exact ⟨rfl,parts.push s _ holds⟩
  pending := by
    rintro s _ left ⟨rfl,holds⟩
    exact ⟨rfl,parts.pending s left holds⟩
  resolve := by
    rintro r state g type group wide s _ m ⟨⟨rfl,holds⟩,got⟩ done
    exact ⟨m,done,rfl,parts.resolve s m r state g type holds got group wide done⟩
  write := by
    rintro r state s _ m ⟨⟨rfl,holds⟩,value⟩ done
    exact ⟨m,done,rfl,parts.write s m r state holds value done⟩
  arrive := fun label arrival => itself_respects.mpr (parts.arrive label arrival)
  typed := parts.typed

theorem BasicInvariant.lasting (parts : BasicInvariant p I K) : Lasting p I where
  calm := parts.itself.calm
  push := parts.push
  terminal := parts.terminal
  enter := parts.enter

theorem ElementaryInvariant.steady (parts : ElementaryInvariant p I K) : Steady p (Itself I) :=
  have elementary : Elementary p (Itself I) K :=
    { parts.itself with
      site := by
        rintro s _ g i ⟨rfl,holds⟩
        exact ⟨rfl,parts.site s g i holds⟩
      group := by
        rintro s _ wide ⟨rfl,holds⟩
        exact ⟨rfl,rfl,parts.group s wide holds⟩
      union := by
        rintro s _ left right a b ga gb ⟨rfl,holds⟩ first second one two even
        exact ⟨rfl,rfl,parts.union s left right a b ga gb holds first second one two even⟩
      fresh := parts.fresh
      read := fun s _ r state both => parts.read s r state both.2
      waits := parts.waits }
  elementary.steady

theorem Reaches.keeps (parts : ElementaryInvariant p I K)
    (settles : ∀ s d, I s → s.draft.resolveDefaults = .ok d → I { s with draft := d }) (reached : Reaches p s t)
    (holds : I s) : I t := by
  induction reached with
  | start => exact holds
  | place item _ done ih => exact parts.lasting.place parts.steady item _ _ ih done
  | discard _ ih => exact parts.lasting.discardPending ih
  | arrive label arrival _ done ih => exact parts.arrive label arrival _ _ ih done
  | step i _ done ih => exact itself_respects.mp (parts.steady.step i) _ _ ih done
  | settle _ done ih => exact settles _ _ ih done

end Restack.Lowering
