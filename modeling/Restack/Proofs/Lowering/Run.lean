import Mathlib
import Restack.Proofs.Lowering.Steps

namespace Restack.Lowering

open Draft (Settles Extends Sound)

-- The start of a body, one item of it, and all of them. `P` holds of every type that the plan
-- and the items bring in.

variable {P : Descriptor → Prop} {p : Plan} {s t m : State} {address : Nat} {label : Label} {i : Instruction}
  {item : BodyItem} {items : List BodyItem}

structure Plan.Typed (P : Descriptor → Prop) (p : Plan) : Prop where
  closed : Closed P
  caught : ∀ n type, p.handlers.caught.get? n = some type → P type

def ItemTyped (P : Descriptor → Prop) (p : Plan) : BodyItem → Prop
  | .label _ _ => True
  | .instruction _ _ i => ∀ type ∈ givenTypes p.shape.signature.result i, P type

-- Every plan and every item is within the set of all types.

theorem typed_any (p : Plan) : p.Typed fun _ => True := ⟨⟨trivial,fun _ _ _ _ => trivial⟩,fun _ _ _ => trivial⟩

theorem itemTyped_any (p : Plan) (item : BodyItem) : ItemTyped (fun _ => True) p item := by
  cases item with
  | label address label => trivial
  | instruction address opcode i => exact fun _ _ => trivial

-- At the start of a body nothing is known but the receiver and the arguments.

theorem empty_sound : Sound P {} := by
  refine ⟨Draft.rooted_empty,?_⟩
  intro g type has
  simp [Draft.Has] at has

theorem set_typed {f k : Frame} {d : Draft} {r : Nat} {type : Descriptor} (valid : f.Valid P d) (typed : P type)
    (done : f.set r (.typed type) = .ok k) : k.Valid P d ∧ k.size = f.size := by
  obtain ⟨size,-,-,states⟩ := Frame.set_state done
  refine ⟨?_,size⟩
  intro q
  rw [states]
  split
  · exact typed
  · split
    · trivial
    · split
      · trivial
      · exact valid q

theorem entryFrame_valid {shape : MethodShape} {slots : Slots} {f : Frame} (args : ∀ type ∈ shape.signature.args, P type)
    (owner : shape.isStatic = false → P shape.owner) (done : entryFrame shape slots = .ok f) :
    f.Valid P {} ∧ f.size = slots.registers := by
  refine entryFrame_keeps (Q := fun f => f.Valid P {} ∧ f.size = slots.registers) done ⟨?_,Frame.ofSize_size _⟩ ?_
  · intro r
    rw [Frame.ofSize_state]
    trivial
  · rintro f r type k enters ⟨before,size⟩ put
    have typed : P type := by
      rcases enters with argument | ⟨notStatic,rfl⟩
      · exact args type argument
      · exact owner notStatic
    obtain ⟨known,same⟩ := set_typed before typed put
    exact ⟨known,same.trans size⟩

theorem prepare_valid {c : Container} {shape : MethodShape} {code : CodeItem} {labels : LabelTable} {start : State}
    (args : ∀ type ∈ shape.signature.args, P type) (owner : shape.isStatic = false → P shape.owner)
    (done : prepare c shape code labels = .ok (p,start)) : start.Valid P p := by
  simp only [prepare,bind_eq_ok,pure_eq_ok,Prod.mk.injEq] at done
  obtain ⟨slots,-,f,entered,handlers,-,rfl,rfl⟩ := done
  obtain ⟨known,size⟩ := entryFrame_valid args owner entered
  refine ⟨empty_sound,known,size,?_,by simp⟩
  intro n f found
  simp [NatMap.get?] at found

def popping (pending : Option Descriptor) : List Insn :=
  pending.toList.map fun type => if type.isWide then .pop2 else .pop

theorem discardPending_spec (s : State) :
    Evolves P s (popping s.pending) s.discardPending ∧ s.discardPending.pending = none ∧
      s.discardPending.frame = s.frame ∧ s.discardPending.joins = s.joins ∧
      s.discardPending.terminal = s.terminal := by
  unfold State.discardPending
  split
  · rename_i none
    exact ⟨by simpa [popping,none] using Evolves.refl,none,rfl,rfl,rfl⟩
  · rename_i type left
    have path : Evolves P s [] { s with pending := none } := .hold .refl (by simp)
    exact ⟨by simpa [popping,left] using path.emit _,rfl,rfl,rfl,rfl⟩

structure LabelPlaced (P : Descriptor → Prop) (p : Plan) (label : Label) (s t : State) : Prop where
  settles : Settles P (s.draft.push (.label label)) t.draft
  pending : t.pending = (p.handlers.caught.get? label.number).or s.pending
  terminal : t.terminal = false
  frame : t.frame.Valid P t.draft
  size : t.frame.size = p.slots.registers
  joins : ∀ n f, t.joins.get? n = some f → f.Valid P t.draft ∧ f.size = p.slots.registers
  others : ∀ n, n ≠ label.number → t.joins.get? n = s.joins.get? n
  stored : ∀ f, s.joins.get? label.number = some f →
    ∃ g, t.joins.get? label.number = some g ∧ Frame.Below t.draft g f ∧ Frame.Below t.draft t.frame g
  above : s.terminal = false → Frame.Below t.draft t.frame s.frame

def isJoin (p : Plan) (address : Nat) (label : Label) (s : State) : Bool :=
  ((p.labels.entry? address).map LabelEntry.jumpTarget).getD false || s.joins.contains label.number

def beforeLabel (p : Plan) (address : Nat) (label : Label) (s : State) : State :=
  if isJoin p address label s then s.discardPending else s

theorem beforeLabel_same (p : Plan) (address : Nat) (label : Label) (s : State) :
    (beforeLabel p address label s).joins = s.joins ∧ (beforeLabel p address label s).terminal = s.terminal := by
  unfold beforeLabel
  split
  · obtain ⟨-,-,-,joins,terminal⟩ := discardPending_spec (P := fun _ => True) s
    exact ⟨joins,terminal⟩
  · exact ⟨rfl,rfl⟩

theorem beforeLabel_valid (closed : Closed P) (valid : s.Valid P p) : (beforeLabel p address label s).Valid P p := by
  unfold beforeLabel
  split
  · exact (discardPending_spec s).1.valid closed.int valid
  · exact valid

theorem enterLabel_spec {isTarget : Bool} (closed : Closed P) (valid : s.Valid P p)
    (done : enterLabel label isTarget { s with draft := s.draft.push (.label label) } = .ok t) :
    LabelPlaced P p label s
      { t with pending := (p.handlers.caught.get? label.number).or t.pending, terminal := false } := by
  have grown := Draft.extends_push s.draft (.label label)
  have base := valid.withDraft (sound_push valid.draft (.label label)) grown
  rcases enterLabel_ok.mp done with ⟨stored,found,terminal,rfl⟩ | ⟨stored,joined,d,found,-,merged,rfl⟩ | ⟨absent,rfl⟩
  · obtain ⟨known,size⟩ := base.joins _ _ found
    refine ⟨.refl,rfl,rfl,known,size,base.joins,fun _ _ => rfl,?_,?_⟩
    · intro f same
      rw [show s.joins.get? label.number = some stored from found] at same
      cases same
      exact ⟨stored,found,.refl _ _,.refl _ _⟩
    · intro falls
      exact absurd terminal (by simp [falls])
  · obtain ⟨known,size⟩ := base.joins _ _ found
    have result := Frame.merge_merged base.draft closed.int known base.frame merged
    have later := result.settles.extends base.draft
    refine ⟨result.settles,rfl,rfl,result.valid,result.size.trans size,?_,?_,?_,fun _ => result.right⟩
    · intro n f got
      rw [NatMap.get?_insert] at got
      split at got
      · cases got
        exact ⟨result.valid,result.size.trans size⟩
      · exact ⟨(base.joins n f got).1.extends later,(base.joins n f got).2⟩
    · intro n differs
      simp [NatMap.get?_insert,differs]
    · intro f same
      rw [show s.joins.get? label.number = some stored from found] at same
      cases same
      exact ⟨joined,by simp [NatMap.get?_insert],result.left,.refl _ _⟩
  · have nothing : ∀ f, s.joins.get? label.number ≠ some f := by
      intro f found
      rw [show s.joins.get? label.number = none from absent] at found
      cases found
    cases isTarget with
    | false =>
      refine ⟨.refl,rfl,rfl,base.frame,base.size,base.joins,fun _ _ => rfl,?_,fun _ => .refl _ _⟩
      exact fun f found => absurd found (nothing f)
    | true =>
      refine ⟨.refl,rfl,rfl,base.frame,base.size,?_,?_,fun f found => absurd found (nothing f),fun _ => .refl _ _⟩
      · intro n f got
        rw [if_pos rfl,NatMap.get?_insert] at got
        split at got
        · cases got
          exact ⟨base.frame,base.size⟩
        · exact base.joins n f got
      · intro n differs
        simp [NatMap.get?_insert,differs]

theorem placeLabel_spec (closed : Closed P) (valid : s.Valid P p) (done : placeLabel p address label s = .ok t) :
    LabelPlaced P p label (beforeLabel p address label s) t := by
  simp only [placeLabel,bind_eq_ok,pure_eq_ok] at done
  obtain ⟨m,entered,rfl⟩ := done
  exact enterLabel_spec closed (beforeLabel_valid closed valid) entered

theorem placeLabel_eq (p : Plan) (address : Nat) (label : Label) (s : State) :
    placeLabel p address label s =
      enterLabel label (isJoin p address label s)
        { beforeLabel p address label s with draft := (beforeLabel p address label s).draft.push (.label label) } >>= fun t =>
      .ok { t with pending := (p.handlers.caught.get? label.number).or t.pending, terminal := false } := rfl

theorem placeLabel_plain (plain : isJoin p address label s = false) (done : placeLabel p address label s = .ok t) :
    t = { s with
      draft := s.draft.push (.label label)
      pending := (p.handlers.caught.get? label.number).or s.pending
      terminal := false } := by
  have absent : s.joins.get? label.number = none := by
    have unknown := (Bool.or_eq_false_iff.mp plain).2
    exact Option.not_isSome_iff_eq_none.mp (by simpa [NatMap.contains] using unknown)
  rw [placeLabel_eq,plain,beforeLabel,plain,bind_eq_ok] at done
  obtain ⟨m,entered,placed⟩ := done
  simp only [enterLabel,Bool.false_eq_true,if_false,absent,Except.ok.injEq] at entered
  cases placed
  cases entered
  rfl

theorem LabelPlaced.valid (typed : p.Typed P) (valid : s.Valid P p) (placed : LabelPlaced P p label s t) : t.Valid P p := by
  refine ⟨placed.settles.sound (sound_push valid.draft _),placed.frame,placed.size,placed.joins,?_⟩
  intro type left
  rw [placed.pending] at left
  rcases Option.or_eq_some_iff.mp left with caught | ⟨-,pending⟩
  · exact typed.caught _ _ caught
  · exact valid.pending type pending

def dropping (i : Instruction) (pending : Option Descriptor) : List Insn :=
  if takesPending i then [] else popping pending

-- An instruction between the states `s` and `t`: it is lowered from `m`, where
-- what it does not take is off the stack and its handlers know the registers.
structure InstructionPlaced (P : Descriptor → Prop) (p : Plan) (address : Nat) (i : Instruction) (s m : State)
    (parts : List Part) (block : List Insn) (u t : State) : Prop where
  cleared : Evolves P s (dropping i s.pending) m
  heard : (if takesPending i then s else s.discardPending).arriveAll (p.handlers.covering address) .handler = .ok m
  frame : m.frame = s.frame
  pending : m.pending = if takesPending i then s.pending else none
  lowered : Lowered P p i m parts block u
  result : t = { u with terminal := endsTerminal u.draft }

theorem placeInstruction_spec {opcode : Opcode} (closed : Closed P) (valid : s.Valid P p)
    (typed : ∀ type ∈ givenTypes p.shape.signature.result i, P type)
    (done : placeInstruction p address opcode i s = .ok t) :
    ∃ m parts block u, InstructionPlaced P p address i s m parts block u t := by
  simp only [placeInstruction,bind_eq_ok,pure_eq_ok,within_eq_ok] at done
  obtain ⟨m,arrived,u,stepped,rfl⟩ := done
  obtain ⟨first,clear,frame⟩ : Evolves P s (dropping i s.pending) (if takesPending i then s else s.discardPending) ∧
      (if takesPending i then s else s.discardPending).pending = (if takesPending i then s.pending else none) ∧
      (if takesPending i then s else s.discardPending).frame = s.frame := by
    unfold dropping
    split
    · exact ⟨.refl,rfl,rfl⟩
    · obtain ⟨path,none,frame,-⟩ := discardPending_spec (P := P) s
      exact ⟨path,none,frame⟩
  obtain ⟨kept,same⟩ := arriveAll_same arrived
  have cleared : Evolves P s (dropping i s.pending) m := by simpa using first.trans (evolves_arriveAll arrived)
  have pending := kept.trans clear
  obtain ⟨parts,block,lowered⟩ := step_lowered closed (cleared.valid closed.int valid) typed
    (fun other => by simp [pending,other]) stepped
  exact ⟨m,parts,block,u,cleared,arrived,same.trans frame,pending,lowered,rfl⟩

theorem InstructionPlaced.path {parts : List Part} {block : List Insn} {u : State}
    (placed : InstructionPlaced P p address i s m parts block u t) : Evolves P s (dropping i s.pending ++ block) u :=
  placed.cleared.trans placed.lowered.path

theorem InstructionPlaced.valid {parts : List Part} {block : List Insn} {u : State} (closed : Closed P)
    (valid : s.Valid P p) (placed : InstructionPlaced P p address i s m parts block u t) : t.Valid P p := by
  have base := placed.path.valid closed.int valid
  obtain rfl := placed.result
  exact ⟨base.draft,base.frame,base.size,base.joins,base.pending⟩

theorem place_valid (typed : p.Typed P) (here : ItemTyped P p item) (valid : s.Valid P p) (done : place p s item = .ok t) :
    t.Valid P p := by
  cases item with
  | label address label =>
    exact (placeLabel_spec typed.closed valid done).valid typed (beforeLabel_valid typed.closed valid)
  | instruction address opcode i =>
    obtain ⟨m,parts,block,u,placed⟩ := placeInstruction_spec typed.closed valid here done
    exact placed.valid typed.closed valid

theorem run_valid (typed : p.Typed P) (all : ∀ item ∈ items, ItemTyped P p item) (valid : s.Valid P p)
    (ran : items.foldlM (place p) s = .ok t) : t.Valid P p :=
  foldlM_keeps (P := State.Valid P p) (fun _ item _ member before done => place_valid typed (all item member) before done)
    valid ran

structure Finished (P : Descriptor → Prop) (p : Plan) (start : State) (items : List BodyItem) (s t : State) : Prop where
  ran : items.foldlM (place p) start = .ok s
  settles : Settles P s.draft t.draft
  resolved : ∀ g, s.draft.Has g → ∃ type, t.draft.resolution? g = some type

theorem finish_spec {start : State} {body : DecodedBody} (typed : p.Typed P) (long : P .long)
    (all : ∀ item ∈ body.items, ItemTyped P p item) (valid : start.Valid P p) (done : finish p start body = .ok t) :
    ∃ s, Finished P p start body.items s t := by
  simp only [finish,DecodedBody.foldlM,bind_eq_ok,pure_eq_ok] at done
  obtain ⟨s,⟨_,ran,_,-,rfl⟩,d,resolved,rfl⟩ := done
  have defaults : ∀ wide, P (Draft.defaultType wide) := by
    intro wide
    cases wide with
    | false => exact typed.closed.int
    | true => exact long
  obtain ⟨settles,known⟩ := Draft.resolveDefaults_settles (run_valid typed all valid ran).draft defaults resolved
  exact ⟨_,ran,settles,fun g has => known g (settles.has.mpr has)⟩

def bare : Container where
  header := {
    magic := [], checksum := 0, signature := [], fileSize := 0, headerSize := 0, endianTag := 0, link := ⟨0,0⟩,
    mapOffset := 0, strings := ⟨0,0⟩, types := ⟨0,0⟩, protos := ⟨0,0⟩, fields := ⟨0,0⟩, methods := ⟨0,0⟩,
    classes := ⟨0,0⟩, data := ⟨0,0⟩ }
  bytes := #[]
  strings := #[]
  types := #[]
  protos := #[]
  fields := #[]
  methods := #[]
  classes := #[]
  classIndex := []

end Restack.Lowering
