import Mathlib
import Restack.Lowering.Step
import Restack.Proofs.Lowering.Traced

namespace Restack.Lowering

open Draft (Settles Extends Sound)

-- The code of an instruction, in parts: instructions as they stand between
-- transfers from and to registers. What a transfer looks like depends on what is
-- known of the register, and so on everything lowered before it.

inductive Part where
  | code (i : Insn)
  -- A register goes onto the stack as a value of a type.
  | read (r : Nat) (type : Descriptor)
  -- A register of open type goes onto the stack as it is.
  | look (r : Nat)
  | write (r : Nat) (type : Descriptor)
  | copy (dest source : Nat) (wide : Bool)
  -- A constant of open type goes into a register.
  | bits (r : Nat) (value : Constant) (wide : Bool)

def width (wide : Bool) : Nat := if wide then 2 else 1

def openKind (wide : Bool) : Kind := if wide then .long else .int

inductive Expands (P : Descriptor → Prop) (p : Plan) : Part → List Insn → Prop where
  | code {i : Insn} : Expands P p (.code i) [i]
  | read {r slot : Nat} {type : Descriptor} {want : Kind} : P type → p.slots.slot r = .ok slot →
      type.kind? = some want → Expands P p (.read r type) [.load want slot]
  -- The register holds bits of another type of the same width.
  | recast {r slot : Nat} {type held : Descriptor} {want kind : Kind} {call : MemberRef} :
      P type → p.slots.slot r = .ok slot → type.kind? = some want → P held → held.kind? = some kind →
      reinterpretation? kind want = some call → Expands P p (.read r type) [.load kind slot,.invoke .static call]
  | look {r slot : Nat} : p.slots.slot r = .ok slot → Expands P p (.look r) [.load .int slot]
  | write {r slot : Nat} {type : Descriptor} {kind : Kind} : P type → p.slots.slot r = .ok slot →
      type.kind? = some kind → r + width type.isWide ≤ p.slots.registers → Expands P p (.write r type) [.store kind slot]
  | copy {dest source here there : Nat} {wide : Bool} {kind : Kind} : p.slots.slot source = .ok here →
      p.slots.slot dest = .ok there → kind = openKind wide ∨ (∃ held, P held ∧ held.kind? = some kind) →
      kind.isWide = wide → dest + width wide ≤ p.slots.registers →
      Expands P p (.copy dest source wide) [.load kind here,.store kind there]
  | bits {r slot : Nat} {value : Constant} {wide : Bool} : p.slots.slot r = .ok slot →
      r + width wide ≤ p.slots.registers → Expands P p (.bits r value wide) [.const value,.store (openKind wide) slot]

inductive ExpandsAll (P : Descriptor → Prop) (p : Plan) : List Part → List Insn → Prop where
  | nil : ExpandsAll P p [] []
  | cons {part : Part} {parts : List Part} {here rest : List Insn} : Expands P p part here →
      ExpandsAll P p parts rest → ExpandsAll P p (part :: parts) (here ++ rest)

-- Code that was lowered: the instructions it emitted are an expansion of the parts, and
-- they keep to the registers.
structure Follows (P : Descriptor → Prop) (p : Plan) (s : State) (parts : List Part) (t : State) : Prop where
  trace : ∃ block, ExpandsAll P p parts block ∧ Traced P p s block t
  pending : t.pending = s.pending

variable {P : Descriptor → Prop} {p : Plan} {s t m : State} {part : Part} {left right parts : List Part}
  {block here rest : List Insn} {r : Nat} {type : Descriptor} {state : RegisterState} {label : Label}
  {labels : List Label} {arrival : Arrival}

theorem ExpandsAll.append (first : ExpandsAll P p left here) (second : ExpandsAll P p right rest) :
    ExpandsAll P p (left ++ right) (here ++ rest) := by
  induction first with
  | nil => exact second
  | cons expands _ ih =>
    rw [List.append_assoc]
    exact .cons expands ih

theorem ExpandsAll.split (expanded : ExpandsAll P p (left ++ right) block) :
    ∃ here rest, block = here ++ rest ∧ ExpandsAll P p left here ∧ ExpandsAll P p right rest := by
  induction left generalizing block with
  | nil => exact ⟨[],block,rfl,.nil,expanded⟩
  | cons part parts ih =>
    obtain _ | ⟨expands,others⟩ := expanded
    obtain ⟨here,rest,rfl,first,second⟩ := ih others
    exact ⟨_ ++ here,rest,(List.append_assoc ..).symm,.cons expands first,second⟩

theorem ExpandsAll.single (expands : Expands P p part block) : ExpandsAll P p [part] block := by
  simpa using ExpandsAll.cons expands .nil

theorem expandsAll_code (insns : List Insn) : ExpandsAll P p (insns.map .code) insns := by
  induction insns with
  | nil => exact .nil
  | cons i rest ih => exact .cons (.code (i := i)) ih

theorem Follows.refl : Follows P p s [] s := ⟨⟨[],.nil,.refl⟩,rfl⟩

theorem Follows.trans (first : Follows P p s left m) (second : Follows P p m right t) :
    Follows P p s (left ++ right) t := by
  obtain ⟨⟨here,expanded,traced⟩,kept⟩ := first
  obtain ⟨⟨rest,more,further⟩,same⟩ := second
  exact ⟨⟨here ++ rest,expanded.append more,traced.trans further⟩,same.trans kept⟩

theorem Follows.valid (int : P .int) (valid : s.Valid P p) (follows : Follows P p s parts t) : t.Valid P p := by
  obtain ⟨⟨block,-,traced⟩,-⟩ := follows
  exact traced.path.valid int valid

theorem follows_part (expands : Expands P p part block) (traced : Traced P p s block t) (kept : t.pending = s.pending) :
    Follows P p s [part] t := ⟨⟨block,.single expands,traced⟩,kept⟩

theorem follows_quiet (path : Evolves P s [] t) (frame : t.frame = s.frame) (joins : t.joins = s.joins)
    (kept : t.pending = s.pending) : Follows P p s [] t := ⟨⟨[],.nil,.quiet .refl path frame joins⟩,kept⟩

theorem follows_emitAll (insns : List Insn) (plain : ∀ i ∈ insns, i.isPlain = true) :
    Follows P p s (insns.map .code) (s.emitAll insns) := by
  refine ⟨⟨insns,expandsAll_code insns,traced_emitAll plain⟩,?_⟩
  clear plain
  induction insns generalizing s with
  | nil => rfl
  | cons i rest ih => exact ih (s := s.emit i)

theorem follows_emit {i : Insn} (plain : i.isPlain = true) : Follows P p s [.code i] (s.emit i) :=
  follows_emitAll [i] (by simpa using plain)

theorem kindOf_ok {kind : Kind} : kindOf type = .ok kind ↔ type.kind? = some kind := by
  unfold kindOf
  split <;> simp_all

theorem arrayKindOf_ok {kind : ArrayKind} : arrayKindOf type = .ok kind ↔ type.arrayKind? = some kind := by
  unfold arrayKindOf
  split <;> simp_all

theorem register_state (valid : s.Valid P p) (done : s.register r = .ok state) :
    state.Valid P s.draft ∧ ∀ g, state.group? = some g → s.draft.Has g ∧ s.draft.resolution? g = none := by
  obtain ⟨-,rfl⟩ := Frame.get_state done
  have known := RegisterState.settled_valid valid.draft (valid.frame r)
  exact ⟨known,fun g group => ⟨known.has group,RegisterState.settled_open group⟩⟩

theorem register_outlook (got : s.register r = .ok state) : (s.frame.state r).outlook s.draft = state.outlook s.draft := by
  obtain ⟨-,rfl⟩ := Frame.get_state got
  exact (RegisterState.outlook_settled _ _).symm

theorem register_group {g : Group} (got : s.register r = .ok state) (group : state.group? = some g) :
    s.frame.state r = state := by
  obtain ⟨-,settled⟩ := Frame.get_state got
  cases known : (s.frame.state r).group?.bind s.draft.resolution? with
  | none => simp [settled,RegisterState.settled,known]
  | some type =>
    have told : state = .typed type := by rw [settled,RegisterState.settled,known]
    simp [told,RegisterState.group?] at group

theorem resolve_evolves {g : Group} (has : s.draft.Has g) (typed : P type) (done : s.resolve g type = .ok t) :
    Evolves P s [] t ∧ ∃ d, t = { s with draft := d } := by
  simp only [State.resolve,bind_eq_ok,pure_eq_ok] at done
  obtain ⟨d,settled,rfl⟩ := done
  exact ⟨.settle .refl (Draft.settles_resolve has typed settled),d,rfl⟩

theorem resolve_told {g : Group} (valid : s.Valid P p) (has : s.draft.Has g) (free : s.draft.resolution? g = none)
    (done : s.resolve g type = .ok t) : t.draft.resolution? g = some type := by
  simp only [State.resolve,bind_eq_ok,pure_eq_ok] at done
  obtain ⟨d,settled,rfl⟩ := done
  exact (Draft.resolve_resolution valid.draft.toRooted free settled has).trans (if_pos rfl)

-- A state that differs from another in its draft only.
structure SamePlace (s t : State) : Prop where
  frame : t.frame = s.frame
  joins : t.joins = s.joins
  pending : t.pending = s.pending

theorem load_spec (valid : s.Valid P p) (typed : P type) (done : load p r type s = .ok t) :
    Follows P p s [.read r type] t ∧ SamePlace s t := by
  simp only [load,bind_eq_ok,kindOf_ok] at done
  obtain ⟨want,wanted,slot,placed,state,got,done⟩ := done
  obtain ⟨known,isOpen⟩ := register_state valid got
  have plain : ∀ g, state.group? = some g → loadOpen r slot state g type want s = .ok t →
      Follows P p s [.read r type] t ∧ SamePlace s t := by
    intro g group done
    simp only [loadOpen,guard_eq_ok,bind_eq_ok,pure_eq_ok] at done
    obtain ⟨-,m,resolved,rfl⟩ := done
    obtain ⟨has,free⟩ := isOpen g group
    obtain ⟨path,d,rfl⟩ := resolve_evolves has typed resolved
    -- From here on the register has the type that is asked for.
    have told : (s.frame.state r).outlook d = .kind (some want) := by
      rw [register_group got group,RegisterState.outlook_resolved group (resolve_told valid has free resolved),wanted]
    have traced : Traced P p s [] { s with draft := d } := .quiet .refl path rfl rfl
    exact ⟨follows_part (.read typed placed wanted) (.load traced placed told) rfl,rfl,rfl,rfl⟩
  cases state with
  | unknown => simp at done
  | typed held =>
    simp only [bind_eq_ok,kindOf_ok] at done
    obtain ⟨kind,holds,done⟩ := done
    have told : (s.frame.state r).outlook s.draft = .kind (some kind) := by rw [register_outlook got,← holds]; rfl
    have traced : Traced P p s [.load kind slot] (s.emit (.load kind slot)) := .load .refl placed told
    unfold reinterpret at done
    split at done
    · rename_i same
      cases done
      cases same
      exact ⟨follows_part (.read typed placed wanted) traced rfl,rfl,rfl,rfl⟩
    · split at done
      · rename_i call found
        cases done
        have call : Traced P p (s.emit (.load kind slot)) [.invoke .static call] _ := traced_emitAll (by simp [Insn.isPlain])
        exact ⟨follows_part (.recast typed placed wanted known holds found) (traced.trans call) rfl,rfl,rfl,rfl⟩
      · simp at done
  | open32 g => exact plain g rfl done
  | open64 g => exact plain g rfl done

theorem setRegister_bound {value : RegisterState} (done : s.setRegister r value = .ok t)
    (size : s.frame.size = p.slots.registers) : r + width value.isWide ≤ p.slots.registers := by
  obtain ⟨f,written,-⟩ := setRegister_frame done
  obtain ⟨-,low,high,-⟩ := Frame.set_state written
  rw [← size]
  unfold width
  split
  · exact high ‹_›
  · exact low

theorem setRegister_pending {value : RegisterState} (done : s.setRegister r value = .ok t) :
    t.pending = s.pending := by
  obtain ⟨f,-,rfl⟩ := setRegister_frame done
  rfl

theorem traced_write {slot : Nat} {kind : Kind} {value : RegisterState} (placed : p.slots.slot r = .ok slot)
    (path : Evolves P s [.store kind slot] t) (done : m.setRegister r value = .ok t) (frame : m.frame = s.frame)
    (joins : m.joins = s.joins) : Traced P p s [.store kind slot] t := by
  obtain ⟨f,written,rfl⟩ := setRegister_frame done
  rw [frame] at written
  exact .store .refl placed path written joins

theorem store_spec (valid : s.Valid P p) (typed : P type) (done : store p r type s = .ok t) :
    Follows P p s [.write r type] t := by
  simp only [store,bind_eq_ok,kindOf_ok] at done
  obtain ⟨slot,placed,kind,held,done⟩ := done
  have known : (RegisterState.typed type).Valid P (s.emit (.store kind slot)).draft := typed
  have path : Evolves P s [.store kind slot] t := .write (.emit _ .refl) known done
  exact follows_part (.write typed placed held (setRegister_bound done valid.size)) (traced_write placed path done rfl rfl)
    (setRegister_pending done :)

theorem isWide_of_kind {kind : Kind} (known : type.kind? = some kind) : kind.isWide = type.isWide := by
  cases type <;> cases known <;> rfl

theorem copy_spec {dest source : Nat} (valid : s.Valid P p) (read : loadAsIs p source s = .ok (state,m))
    (done : storeAs p dest state m = .ok t) : Follows P p s [.copy dest source state.isWide] t := by
  simp only [loadAsIs,bind_eq_ok] at read
  obtain ⟨here,placed,found,got,read⟩ := read
  obtain ⟨known,isOpen⟩ := register_state valid got
  simp only [storeAs,bind_eq_ok] at done
  obtain ⟨there,target,done⟩ := done
  -- Both instructions are placeholders of the group that the register has.
  have waits : ∀ g wide, s.register source = .ok state → state.group? = some g → state.isWide = wide → s.draft.Has g →
      s.draft.resolution? g = none → m = s.emitSite g (.load (openKind wide) here) →
      (m.emitSite g (.store (openKind wide) there)).setRegister dest state = .ok t →
      Follows P p s [.copy dest source state.isWide] t := by
    rintro g wide got group rfl has free rfl done
    have plain : (openKind state.isWide).untyped = openKind state.isWide := by cases state.isWide <;> rfl
    have second : Evolves P (s.emitSite g (.load (openKind state.isWide) here)) [.store (openKind state.isWide) there] _ :=
      .site (g := g) .refl (by simpa [State.emitSite,Draft.pushSite] using has) (by simp [Insn.untyped,plain])
        (.inl (by simpa [State.emitSite,Draft.pushSite] using free))
    have kept := RegisterState.valid_of_group (P := P) group
      (d := ((s.emitSite g (.load (openKind state.isWide) here)).emitSite g (.store (openKind state.isWide) there)).draft)
      (by simpa [State.emitSite,Draft.pushSite] using has)
    have traced : Traced P p s [.load (openKind state.isWide) here] (s.emitSite g (.load (openKind state.isWide) here)) :=
      .look .refl placed (by rw [register_group got group]; exact group) ⟨has,free,plain⟩
    refine follows_part (.copy placed target (.inl rfl) ?_ ?_)
      (traced.trans (traced_write target (.write second kept done) done rfl rfl)) (setRegister_pending done :)
    · cases state.isWide <;> rfl
    · exact setRegister_bound done valid.size
  cases found with
  | unknown => simp at read
  | typed held =>
    simp only [bind_eq_ok,kindOf_ok,pure_eq_ok,Prod.mk.injEq] at read
    obtain ⟨kind,holds,rfl,rfl⟩ := read
    simp only [store,bind_eq_ok,kindOf_ok] at done
    obtain ⟨slot,same,kind',alike,done⟩ := done
    rw [target] at same
    cases same
    rw [holds] at alike
    cases alike
    have stays : (RegisterState.typed held).Valid P ((s.emit (.load kind here)).emit (.store kind there)).draft := known
    have path : Evolves P (s.emit (.load kind here)) [.store kind there] t := .write (.emit _ .refl) stays done
    have told : (s.frame.state source).outlook s.draft = .kind (some kind) := by rw [register_outlook got,← holds]; rfl
    have traced : Traced P p s [.load kind here] (s.emit (.load kind here)) := .load .refl placed told
    refine follows_part (.copy placed target (.inr ⟨held,known,holds⟩) (isWide_of_kind holds) ?_)
      (traced.trans (traced_write target path done rfl rfl)) (setRegister_pending done :)
    exact setRegister_bound done valid.size
  | open32 g =>
    simp only [pure_eq_ok,Prod.mk.injEq] at read
    obtain ⟨rfl,rfl⟩ := read
    exact waits g false got rfl rfl (isOpen g rfl).1 (isOpen g rfl).2 rfl done
  | open64 g =>
    simp only [pure_eq_ok,Prod.mk.injEq] at read
    obtain ⟨rfl,rfl⟩ := read
    exact waits g true got rfl rfl (isOpen g rfl).1 (isOpen g rfl).2 rfl done

theorem look_spec {g : Group} (valid : s.Valid P p) (got : s.register r = .ok (.open32 g))
    (read : loadAsIs p r s = .ok (state,t)) :
    Follows P p s [.look r] t ∧ ∃ slot, t = s.emitSite g (.load .int slot) := by
  simp only [loadAsIs,got,bind_eq_ok] at read
  obtain ⟨slot,placed,found,same,read⟩ := read
  cases same
  simp only [pure_eq_ok,Prod.mk.injEq] at read
  obtain ⟨rfl,rfl⟩ := read
  obtain ⟨has,free⟩ := (register_state valid got).2 g rfl
  have traced : Traced P p s [.load .int slot] (s.emitSite g (.load .int slot)) :=
    .look .refl placed (by rw [register_group got rfl]; rfl) ⟨has,free,rfl⟩
  exact ⟨follows_part (.look placed) traced rfl,slot,rfl⟩

theorem register_open {g : Group} (got : s.register r = .ok state) (group : state.group? = some g)
    (frame : t.frame = s.frame) (free : t.draft.resolution? g = none) : t.register r = .ok state := by
  obtain ⟨inside,-⟩ := Frame.get_state got
  have here : s.frame.registers[r]? = some state := by
    rw [← register_group got group,Frame.state,Array.getD_eq_getD_getElem?]
    simp [Array.getElem?_eq_getElem (show r < s.frame.registers.size from inside)]
  simp [State.register,Frame.get,frame,here,RegisterState.settled,group,free]

theorem constant_spec {value : Constant} {wide : Bool} (valid : s.Valid P p) (plain : value.untyped = value)
    (done : constant p r value wide s = .ok t) : Follows P p s [.bits r value wide] t := by
  simp only [constant] at done
  have fresh := Draft.has_fresh s.draft wide
  have free := Draft.newGroup_open s.draft wide
  generalize (s.draft.newGroup wide).1 = g at done fresh free
  have first : Evolves P { s with draft := (s.draft.newGroup wide).2 } [.const value]
      (State.emitSite { s with draft := (s.draft.newGroup wide).2 } g (.const value)) :=
    .site .refl fresh (by simp [Insn.untyped,plain]) (.inl free)
  have group : Traced P p s [] { s with draft := (s.draft.newGroup wide).2 } := .quiet .refl (.group wide .refl) rfl rfl
  have traced : Traced P p s [.const value] (State.emitSite { s with draft := (s.draft.newGroup wide).2 } g (.const value)) :=
    .code group (fun _ => Iff.rfl) rfl first rfl rfl rfl
  simp only [storeAs,bind_eq_ok] at done
  obtain ⟨slot,placed,done⟩ := done
  have second : Evolves P (State.emitSite { s with draft := (s.draft.newGroup wide).2 } g (.const value))
      [.store (openKind wide) slot] _ :=
    .site (g := g) .refl (by simpa [State.emitSite,Draft.pushSite] using fresh) (by cases wide <;> rfl)
      (.inl (by simpa [State.emitSite,Draft.pushSite] using free))
  cases wide with
  | false =>
    refine follows_part (.bits placed (setRegister_bound done valid.size))
      (traced.trans (traced_write placed (.write second ?_ done) done rfl rfl)) (setRegister_pending done :)
    simpa [RegisterState.Valid,State.emitSite,Draft.pushSite] using fresh
  | true =>
    refine follows_part (.bits placed (setRegister_bound done valid.size))
      (traced.trans (traced_write placed (.write second ?_ done) done rfl rfl)) (setRegister_pending done :)
    simpa [RegisterState.Valid,State.emitSite,Draft.pushSite] using fresh

theorem follows_leap {i : Insn} (same : ∀ label, label ∈ labels ↔ label ∈ i.targets)
    (still : i.isTransfer = false) (arrived : s.arriveAll labels .branch = .ok m) (path : Evolves P m [i] t)
    (place : SamePlace m t) : Follows P p s [.code i] t := by
  have traced : Traced P p s ([] ++ [i]) t := .code .refl same arrived path place.frame place.joins still
  exact follows_part .code traced (place.pending.trans (arriveAll_same arrived).1)

end Restack.Lowering
