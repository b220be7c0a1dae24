import Mathlib
import Restack.Proofs.Lowering.Flow
import Restack.Proofs.Lowering.Joins
import Restack.Proofs.Translation

namespace Restack

open Lowering

-- Where paths meet that all come from above: what is known of a register after the
-- label was known at the source of every path.

variable {c : Container} {shape : MethodShape} {item : CodeItem} {labels : LabelTable} {p : Plan} {start final s t : State}
  {file : Option String} {settings : Settings} {code : Code} {d : Draft} {f g : Frame} {r : Nat} {kind : Kind}
  {label : Label} {address j k : Nat}

def Frame.kindAt? (f : Frame) (d : Draft) (r : Nat) : Option Kind :=
  match f.get d r with
  | .ok (.typed type) => type.kind?
  | _ => none

theorem Frame.kindAt_outlook (known : f.kindAt? d r = some kind) : (f.state r).outlook d = .kind (some kind) := by
  unfold Frame.kindAt? at known
  split at known
  · rename_i type got
    obtain ⟨-,settled⟩ := Frame.get_state got
    rw [← RegisterState.outlook_settled,← settled,← known]
    rfl
  · cases known

theorem Frame.kindAt_of_outlook (known : (f.state r).outlook d = .kind (some kind)) : f.kindAt? d r = some kind := by
  have inside : r < f.size := by
    by_contra outside
    rw [Frame.state_outside (Nat.le_of_not_lt outside)] at known
    cases known
  have got : f.get d r = .ok ((f.state r).settled d) := by
    simp [Frame.get,Frame.state,Array.getElem?_eq_getElem (show r < f.registers.size from inside)]
  rw [← RegisterState.outlook_settled] at known
  unfold Frame.kindAt?
  rw [got]
  cases settled : (f.state r).settled d with
  | unknown =>
    rw [settled] at known
    cases known
  | typed type =>
    rw [settled] at known
    exact Outlook.kind.inj known
  | open32 h =>
    have free : d.resolution? h = none := RegisterState.settled_open (a := f.state r) (by rw [settled]; rfl)
    rw [settled] at known
    simp [RegisterState.outlook,free] at known
  | open64 h =>
    have free : d.resolution? h = none := RegisterState.settled_open (a := f.state r) (by rw [settled]; rfl)
    rw [settled] at known
    simp [RegisterState.outlook,free] at known

theorem Frame.kindAt_below (below : RegisterState.Below d (f.state r) (g.state r)) (known : f.kindAt? d r = some kind) :
    g.kindAt? d r = some kind := by
  have seen := Frame.kindAt_outlook known
  rcases below with nothing | same
  · rw [nothing] at seen
    cases seen
  · exact Frame.kindAt_of_outlook (same ▸ seen)

-- The frames that paths bring to the label at place `j`: a jump from above, or what
-- stands right above it.
inductive Arrives (p : Plan) (start : State) (items : List BodyItem) (j address : Nat) (label : Label) : Frame → Prop where
  | jumps {k above : Nat} {opcode : Opcode} {i : Instruction} {s : State} :
      items[k]? = some (.instruction above opcode i) → label ∈ i.targets → above < address →
      stateAt p start items k = .ok s → Arrives p start items j address label s.frame
  | falls {s : State} : fallsOut (items.take j).reverse = true → stateAt p start items j = .ok s →
      Arrives p start items j address label s.frame

namespace Translates

variable {before after : State} {items : List BodyItem}

theorem start_valid (way : Translates c shape item labels p start final) : start.Valid (fun _ => True) p :=
  prepare_valid (fun _ _ => trivial) (fun _ => trivial) way.prepared

theorem stateAt_valid (way : Translates c shape item labels p start final) (here : stateAt p start items k = .ok s) :
    s.Valid (fun _ => True) p :=
  Lowering.stateAt_valid (typed_any p) (fun item _ => itemTyped_any p item) way.start_valid here

theorem stateAt_flows (way : Translates c shape item labels p start final) (here : stateAt p start items k = .ok s) :
    Flows (items.take k).reverse s := Lowering.stateAt_flows way.start_valid here (flows_start way.planned.first)

-- Items in address order: what is above comes first.

theorem place_order (way : Translates c shape item labels p start final) {one two : BodyItem}
    (first : (DecodedBody.ofCode c item.units labels).items[k]? = some one)
    (second : (DecodedBody.ofCode c item.units labels).items[j]? = some two) (before : k < j) : one.place < two.place := by
  obtain ⟨inside,rfl⟩ := List.getElem?_eq_some_iff.mp first
  obtain ⟨within,rfl⟩ := List.getElem?_eq_some_iff.mp second
  exact List.pairwise_iff_getElem.mp (ofCode_placed way.laid) k j inside within before

theorem above_first (way : Translates c shape item labels p start final) {one two : BodyItem}
    (first : (DecodedBody.ofCode c item.units labels).items[k]? = some one)
    (second : (DecodedBody.ofCode c item.units labels).items[j]? = some two) (above : one.address < two.address) : k < j := by
  by_contra later
  rcases Nat.lt_or_eq_of_le (Nat.le_of_not_lt later) with less | rfl
  · have ordered := way.place_order second first less
    have low := one.place_address
    have high := two.place_address
    omega
  · cases first.symm.trans second
    exact absurd above (Nat.lt_irrefl _)

theorem guarded_until (way : Translates c shape item labels p start final) (next : stateAt p start items (k + 1) = .ok s)
    (guarded : Guarded (fun _ => True) label f s) (first : k < j) (now : stateAt p start items j = .ok before) :
    Guarded (fun _ => True) label f before := by
  refine stateAt_keeps next guarded ?_ first now
  intro n body v w _ found at_ kept done
  exact kept.place (typed_any p) (itemTyped_any p body) (way.stateAt_valid at_) done

theorem jump_guards (way : Translates c shape item labels p start final) {above : Nat} {opcode : Opcode} {i : Instruction}
    (there : items[k]? = some (.instruction above opcode i)) (target : label ∈ i.targets) (first : k < j)
    (reached : stateAt p start items k = .ok s) (now : stateAt p start items j = .ok before) :
    Guarded (fun _ => True) label s.frame before := by
  have valid := way.stateAt_valid reached
  obtain ⟨t,next⟩ := stateAt_before now first
  obtain ⟨m,same,placed⟩ := (stateAt_succ there).mp next
  rw [reached] at same
  cases same
  obtain ⟨m,parts,block,u,shown⟩ := placeInstruction_spec (typed_any p).closed valid (fun _ _ => trivial) placed
  have guarded := shown.lowered.guards trivial (shown.cleared.valid trivial valid) target
  rw [shown.frame] at guarded
  obtain rfl := shown.result
  exact way.guarded_until next ⟨guarded.valid,guarded.stored⟩ first now

theorem guarded_below (way : Translates c shape item labels p start final) (here : items[j]? = some (.label address label))
    (placed : stateAt p start items (j + 1) = .ok after) (now : stateAt p start items j = .ok before)
    (guarded : Guarded (fun _ => True) label f before) :
    f.Valid (fun _ => True) after.draft ∧ Frame.Below after.draft after.frame f := by
  obtain ⟨_,same,done⟩ := (stateAt_succ here).mp placed
  rw [now] at same
  cases same
  have valid := way.stateAt_valid now
  have shown := placeLabel_spec (typed_any p).closed valid done
  have ready : (beforeLabel p address label before).Valid (fun _ => True) p := beforeLabel_valid (typed_any p).closed valid
  have guarded := guarded.evolves trivial valid (beforeLabel_path p address label before)
  obtain ⟨g,found,below⟩ := guarded.stored
  have further := (Draft.extends_push _ (.label label)).trans (shown.settles.extends (sound_push ready.draft _))
  obtain ⟨h,-,lower,lowest⟩ := shown.stored g found
  exact ⟨guarded.valid.extends further,
    (lowest.trans lower).trans (below.extends further (ready.joins _ _ found).1 guarded.valid)⟩

theorem falls_below (way : Translates c shape item labels p start final) (here : items[j]? = some (.label address label))
    (placed : stateAt p start items (j + 1) = .ok after) (now : stateAt p start items j = .ok before)
    (falls : fallsOut (items.take j).reverse = true) :
    before.frame.Valid (fun _ => True) after.draft ∧ Frame.Below after.draft after.frame before.frame := by
  obtain ⟨_,same,done⟩ := (stateAt_succ here).mp placed
  rw [now] at same
  cases same
  have valid := way.stateAt_valid now
  have shown := placeLabel_spec (typed_any p).closed valid done
  have grown := place_extends (typed_any p) (itemTyped_any p _) valid done
  have flows := way.stateAt_flows now
  have same : (beforeLabel p address label before).frame = before.frame ∧
      (beforeLabel p address label before).terminal = before.terminal := by
    unfold beforeLabel
    split
    · obtain ⟨-,-,frame,-,terminal⟩ := discardPending_spec (P := fun _ => True) before
      exact ⟨frame,terminal⟩
    · exact ⟨rfl,rfl⟩
  have above := shown.above (by rw [same.2,flows.flag,flows.ends,falls]; rfl)
  rw [same.1] at above
  exact ⟨valid.frame.extends grown,above⟩

theorem label_below (way : Translates c shape item labels p start final)
    (here : (DecodedBody.ofCode c item.units labels).items[j]? = some (.label address label))
    (placed : stateAt p start (DecodedBody.ofCode c item.units labels).items (j + 1) = .ok after)
    (arrives : Arrives p start (DecodedBody.ofCode c item.units labels).items j address label f) :
    f.Valid (fun _ => True) after.draft ∧ Frame.Below after.draft after.frame f := by
  obtain ⟨before,now,-⟩ := (stateAt_succ here).mp placed
  cases arrives with
  | jumps there target above reached =>
    have first := way.above_first there here above
    exact way.guarded_below here placed now (way.jump_guards there target first reached now)
  | falls falls same =>
    rw [now] at same
    cases same
    exact way.falls_below here placed now falls

end Translates

-- In an accepted body every register that has a kind after a label had the same kind on
-- all paths from above, once all groups have their types.
theorem forward_join_kinds (accepted : Code.ofItem c shape item file settings = .ok code) :
    ∃ labels p start final, Translates c shape item labels p start final ∧ code.events = final.draft.events.toList ∧
      (∀ k, ∃ s, stateAt p start (DecodedBody.ofCode c item.units labels).items k = .ok s) ∧
      ∀ j address label after, (DecodedBody.ofCode c item.units labels).items[j]? = some (.label address label) →
        stateAt p start (DecodedBody.ofCode c item.units labels).items (j + 1) = .ok after →
        ∀ source, Arrives p start (DecodedBody.ofCode c item.units labels).items j address label source →
          ∀ r kind, after.frame.kindAt? final.draft r = some kind → source.kindAt? final.draft r = some kind := by
  obtain ⟨labels,p,start,final,way,-,events,-⟩ := ofItem_translates accepted
  obtain ⟨last,ends⟩ := finish_spec (typed_any p) trivial (fun body _ => itemTyped_any p body) way.start_valid way.finished
  refine ⟨labels,p,start,final,way,events,stateAt_ok ends.ran,?_⟩
  intro j address label after here placed source arrives r kind known
  obtain ⟨valid,below⟩ := way.label_below here placed arrives
  have reached := way.stateAt_valid placed
  -- Nothing that is known after the label is taken back later.
  have within : j + 1 ≤ (DecodedBody.ofCode c item.units labels).items.length :=
    (List.getElem?_eq_some_iff.mp here).1
  have grown := stateAt_extends (typed_any p) (fun body _ => itemTyped_any p body) way.start_valid within placed
    ((stateAt_past (Nat.le_refl _)).trans ends.ran)
  have sound := (way.stateAt_valid ((stateAt_past (Nat.le_refl _)).trans ends.ran)).draft
  have finally_ := grown.trans (ends.settles.extends sound)
  exact Frame.kindAt_below (below.extends finally_ reached.frame valid r) known

-- v0 is an int at the jump to address 7 and a long at the `nop` above it, which control
-- never comes to.
def deadNop : CodeItem where
  registers := 3
  ins := 1
  outs := 0
  debugInfo := 0
  units := #[0x1012,0x0238,0x0006,0x0016,0x0001,0x000e,0x0000,0x007b,0x000e]
  tries := []
  handlers := []

def deadNopShape : MethodShape := ⟨.object "a/T",true,⟨[.int],.void⟩⟩

def jumpSources (items : List BodyItem) (label : Label) : List Nat :=
  items.filterMap fun
    | .instruction address _ i => if label ∈ i.targets then some address else none
    | .label _ _ => none

theorem forward_join_kinds_deadNop :
    ∃ code, Code.ofItem bare deadNopShape deadNop none {} = .ok code ∧
      ∃ labels p start final, Translates bare deadNopShape deadNop labels p start final ∧
        code.events = final.draft.events.toList ∧
        (∀ k, ∃ s, stateAt p start (DecodedBody.ofCode bare deadNop.units labels).items k = .ok s) ∧
        ∀ j address label after, (DecodedBody.ofCode bare deadNop.units labels).items[j]? = some (.label address label) →
          stateAt p start (DecodedBody.ofCode bare deadNop.units labels).items (j + 1) = .ok after →
          ∀ source, Arrives p start (DecodedBody.ofCode bare deadNop.units labels).items j address label source →
            ∀ r kind, after.frame.kindAt? final.draft r = some kind → source.kindAt? final.draft r = some kind := by
  obtain ⟨code,accepted⟩ : ∃ code, Code.ofItem bare deadNopShape deadNop none {} = .ok code := ⟨_,rfl⟩
  exact ⟨code,accepted,forward_join_kinds accepted⟩

-- The only jump to the label comes from above, and so does the `nop`. But that has no
-- code, so nothing falls from it into the label, and its frame is not heard.
theorem deadNop_unheard :
    ∃ labels p start final before after opcode, LabelTable.scan deadNop = .ok labels ∧
      prepare bare deadNopShape deadNop labels = .ok (p,start) ∧
      finish p start (DecodedBody.ofCode bare deadNop.units labels) = .ok final ∧
      (DecodedBody.ofCode bare deadNop.units labels).items[5]? = some (.instruction 6 opcode .nop) ∧
      (DecodedBody.ofCode bare deadNop.units labels).items[6]? = some (.label 7 ⟨1⟩) ∧
      jumpSources (DecodedBody.ofCode bare deadNop.units labels).items ⟨1⟩ = [1] ∧
      stateAt p start (DecodedBody.ofCode bare deadNop.units labels).items 6 = .ok before ∧
      stateAt p start (DecodedBody.ofCode bare deadNop.units labels).items 7 = .ok after ∧
      after.frame.kindAt? final.draft 0 = some .int ∧ before.frame.kindAt? final.draft 0 = some .long :=
  ⟨_,_,_,_,_,_,_,rfl,rfl,rfl,rfl,rfl,rfl,rfl,rfl,rfl,rfl⟩

end Restack
