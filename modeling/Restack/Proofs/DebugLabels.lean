import Mathlib
import Restack.Proofs.Body.Grown
import Restack.Proofs.LabelPlacement
import Restack.Proofs.Lowering.Confined

namespace Restack

open Lowering

-- Debug information asks for labels of its own. Lowering places them like any other, so it forgets
-- there that control does not come from above. Where no jump target is mistaken for one that
-- control falls into, the code is the same but for these labels.

variable {c : Container} {shape : MethodShape} {item : CodeItem} {file : Option String} {labels : LabelTable}
  {p : Plan} {start final s t : State} {items : List BodyItem} {keep : Label → Bool} {K : Label → Prop}
  {k : Nat} {label : Label}

-- The labels of a body by address, each with whether control falls into it.
def landings (before : List BodyItem) : List BodyItem → List (Nat × Bool)
  | [] => []
  | .label address label :: rest => (address,fallsOut before) :: landings (.label address label :: before) rest
  | .instruction address opcode i :: rest => landings (.instruction address opcode i :: before) rest

theorem mem_landings {after : List BodyItem} {address : Nat} (before : List BodyItem) (here : after[k]? = some (.label address label)) :
    (address,fallsOut ((after.take k).reverse ++ before)) ∈ landings before after := by
  induction after generalizing before k with
  | nil => cases here
  | cons first rest ih =>
    cases k with
    | zero =>
      cases here
      exact List.mem_cons_self
    | succ k =>
      have later : (address,fallsOut ((rest.take k).reverse ++ first :: before)) ∈ landings (first :: before) rest :=
        ih (first :: before) here
      rw [List.take_succ_cons,List.reverse_cons,List.append_assoc]
      cases first with
      | label => exact List.mem_cons_of_mem _ later
      | instruction => exact later

-- What can be left out: labels that nothing leads to. `K` holds of the labels that something does lead to.
structure Thinning (K : Label → Prop) (keep : Label → Bool) (p : Plan) (labels : LabelTable) (items : List BodyItem) : Prop where
  kept : ∀ label, K label → keep label = true
  leads : ∀ item ∈ items, ∀ label, ItemLeads p label item → K label
  caught : ∀ n type, p.handlers.caught.get? n = some type → K ⟨n⟩
  marks : ∀ address label, .label address label ∈ items → keep label = true →
    (labels.entry? address).map LabelEntry.jumpTarget = (p.labels.entry? address).map LabelEntry.jumpTarget

-- Nothing leads to a label that is left out, so no frame was stored for it and nothing is caught there.
theorem Thinning.left_out {address : Nat} (thinning : Thinning K keep p labels items) (confined : s.Confined K)
    (member : .label address label ∈ items) (gone : keep label = false) (b : Bool) (placed : placeLabel p address label s = .ok t) :
    t.thin keep b = s.thin keep b := by
  have nowhere : ¬ K label := by
    intro leads
    rw [thinning.kept label leads] at gone
    cases gone
  have plain : isJoin p address label s = false := by
    refine Bool.or_eq_false_iff.mpr ⟨?_,?_⟩
    · exact Bool.eq_false_iff.mpr fun marked => nowhere (thinning.leads _ member label ⟨rfl,marked⟩)
    · refine Bool.eq_false_iff.mpr fun stored => ?_
      obtain ⟨f,known⟩ := Option.isSome_iff_exists.mp stored
      exact nowhere (confined.stores _ f known)
  have uncaught : p.handlers.caught.get? label.number = none :=
    Option.eq_none_iff_forall_ne_some.mpr fun type caught => nowhere (thinning.caught _ type caught)
  exact placeLabel_left_out b gone confined.bounded plain uncaught placed

theorem Thinning.run (thinning : Thinning K keep p labels items) (valid : start.Valid (fun _ => True) p)
    (first : start = { frame := start.frame })
    (alike : ∀ k address label, items[k]? = some (.label address label) → K label →
      fallsOut (items.take k).reverse = fallsOut ((items.take k).filter (BodyItem.isKept keep)).reverse)
    (here : stateAt p start items k = .ok s) :
    ∃ b, ((items.take k).filter (BodyItem.isKept keep)).foldlM (place { p with labels }) start = .ok (s.thin keep b) := by
  have ready : start.Valid (fun _ => True) { p with labels } :=
    ⟨valid.draft,valid.frame,valid.size,valid.joins,valid.pending⟩
  have fresh := flows_start first
  induction k generalizing s with
  | zero =>
    cases here
    refine ⟨false,congrArg Except.ok ?_⟩
    rw [first]
    simp [State.thin]
  | succ k ih =>
    rcases stateAt_next here with ⟨past,here⟩ | ⟨item,m,found,reached,placed⟩
    · rw [List.take_of_length_le (Nat.le_succ_of_le past),← List.take_of_length_le past]
      exact ih here
    · obtain ⟨b,ran⟩ := ih reached
      have confined := stateAt_confined valid first thinning.leads reached
      rw [List.take_add_one,found,Option.toList_some,List.filter_append]
      cases item with
      | instruction address opcode i =>
        obtain ⟨b',again⟩ := placeInstruction_thin labels keep b placed
        exact ⟨b',foldlM_snoc_ok.mpr ⟨_,ran,again⟩⟩
      | label address label =>
        have member := List.mem_of_getElem? found
        cases kept : keep label with
        | true =>
          rw [List.filter_singleton,show BodyItem.isKept keep (.label address label) = true from kept]
          refine ⟨false,foldlM_snoc_ok.mpr ⟨_,ran,placeLabel_thin labels kept (thinning.marks address label member kept) ?_ placed⟩⟩
          intro stored
          obtain ⟨f,known⟩ := Option.isSome_iff_exists.mp stored
          have told := stateAt_flows valid reached fresh
          have plain := run_flows ready fresh ran
          have same := alike k address label found (confined.stores _ f known)
          rw [told.flag,told.ends,same,← plain.ends,← plain.flag]
          rfl
        | false =>
          rw [List.filter_singleton,show BodyItem.isKept keep (.label address label) = false from kept]
          refine ⟨b,?_⟩
          rw [thinning.left_out confined member kept b placed]
          simpa using ran

namespace Translates

variable (way : Translates c shape item labels p start final)
include way

theorem leads_targeted {here : BodyItem} (member : here ∈ (DecodedBody.ofCode c item.units labels).items)
    (leads : ItemLeads p label here) : labels.Targeted label := by
  cases here with
  | label address here =>
    obtain ⟨rfl,marked⟩ := leads
    obtain ⟨entry,found,named⟩ := Option.map_eq_some_iff.mp (way.label_item member)
    rw [way.planned.labelled,found] at marked
    exact ⟨address,entry,found,named,marked⟩
  | instruction address opcode i =>
    rcases leads with jumps | heard
    · obtain ⟨e,-,decoded⟩ := way.decoded member
      exact decoded.targets label jumps
    · obtain ⟨range,listed,-,-,handles⟩ := Handlers.covering_range heard
      obtain ⟨item,present,targets,reach,rfl⟩ := (Handlers.ofCode_ranged way.planned.handlers).covered range listed
      obtain ⟨handler,mine,a,catches,placed⟩ := reach.placed handles
      obtain ⟨entry,found,mark⟩ := way.laid.handlers item present handler mine a catches
      rw [LabelTable.labelAt?,found] at placed
      exact ⟨a,entry,found,Option.some.inj placed,mark⟩

theorem thinning {scanned : LabelTable} (laid : scanned.Laid item) (grown : scanned.Grown labels) :
    Thinning labels.Targeted scanned.isOld p scanned (DecodedBody.ofCode c item.units labels).items where
  kept := by
    intro label target
    obtain ⟨a,entry,found,rfl,-⟩ := grown.targeted target
    exact decide_eq_true (laid.distinct.fresh a entry found)
  leads := fun here member label => way.leads_targeted member
  caught := fun n type caught => (way.registered.caught n type caught).1
  marks := by
    intro address label member kept
    rw [way.planned.labelled,grown.entry_small (way.label_item member) (of_decide_eq_true kept)]

end Translates

-- Control falls into each jump target of a body just when it does in the other body.
def LabelTable.LandAlike (labels : LabelTable) (one two : DecodedBody) : Prop :=
  ∀ here ∈ landings [] one.items, ∀ there ∈ landings [] two.items, here.1 = there.1 → labels.Marked here.1 → here.2 = there.2

def Event.isLabel : Event → Bool
  | .label _ => true
  | .insn _ => false

-- The events of one code without the labels that the other does not have.
def Code.eventsWithin (one two : Code) : List Event := one.events.filter fun event => !event.isLabel || decide (event ∈ two.events)

theorem Code.eventsWithin_eq {one two : Code} (keep : Label → Bool) (thinned : two.events = one.events.filter (Event.isKept keep)) :
    one.eventsWithin two = two.events := by
  unfold Code.eventsWithin
  refine (List.filter_congr ?_).trans thinned.symm
  intro event member
  cases event with
  | insn i => simp [Event.isLabel]
  | label label => simp [Event.isLabel,thinned,member]

theorem LabelTable.LandAlike.falls {one two : DecodedBody} {address : Nat} (alike : labels.LandAlike one two)
    (remains : one.items.filter (BodyItem.isKept keep) = two.items) (here : one.items[k]? = some (.label address label))
    (kept : keep label = true) (marked : labels.Marked address) :
    fallsOut (one.items.take k).reverse = fallsOut ((one.items.take k).filter (BodyItem.isKept keep)).reverse := by
  obtain ⟨inside,same⟩ := List.getElem?_eq_some_iff.mp here
  have split : two.items = (one.items.take k).filter (BodyItem.isKept keep) ++
      .label address label :: (one.items.drop (k + 1)).filter (BodyItem.isKept keep) := by
    rw [← remains]
    nth_rewrite 1 [← List.take_append_drop k one.items]
    rw [List.drop_eq_getElem_cons inside,same,List.filter_append,List.filter_cons_of_pos (by exact kept)]
  have there : two.items[((one.items.take k).filter (BodyItem.isKept keep)).length]? = some (.label address label) := by
    simp [split]
  have front : two.items.take ((one.items.take k).filter (BodyItem.isKept keep)).length =
      (one.items.take k).filter (BodyItem.isKept keep) := by
    rw [split,List.take_left]
  have first := mem_landings [] here
  have second := mem_landings [] there
  rw [List.append_nil] at first second
  rw [front] at second
  exact alike _ first _ second rfl marked

theorem Translates.thinned {scanned : LabelTable} {q : Plan} {ending : State}
    (way : Translates c shape item labels { q with labels } start final) (other : Translates c shape item scanned q start ending)
    (grown : scanned.Grown labels)
    (alike : scanned.LandAlike (DecodedBody.ofCode c item.units labels) (DecodedBody.ofCode c item.units scanned)) :
    ending.draft = final.draft.thin scanned.isOld := by
  have thinning := way.thinning other.laid grown
  have remains := grown.body other.laid other.whole
  have falls : ∀ k address label, (DecodedBody.ofCode c item.units labels).items[k]? = some (.label address label) →
      labels.Targeted label → fallsOut ((DecodedBody.ofCode c item.units labels).items.take k).reverse =
        fallsOut (((DecodedBody.ofCode c item.units labels).items.take k).filter (BodyItem.isKept scanned.isOld)).reverse := by
    intro k address label here target
    obtain ⟨a,entry,found,named,mark⟩ := grown.targeted target
    have placed : scanned.labelAt? a = some label := Option.map_eq_some_iff.mpr ⟨entry,found,named⟩
    obtain rfl := way.laid.distinct.address (grown.labelAt placed) (way.label_item (List.mem_of_getElem? here))
    exact alike.falls remains here (thinning.kept label target) ⟨entry,found,mark⟩
  have told := way.finished
  have plain := other.finished
  simp only [finish,DecodedBody.foldlM,bind_eq_ok,pure_eq_ok] at told plain
  obtain ⟨s,⟨_,ran,_,-,rfl⟩,d,resolved,rfl⟩ := told
  obtain ⟨t,⟨_,again,_,-,rfl⟩,e,settled,rfl⟩ := plain
  obtain ⟨b,thinned⟩ := thinning.run way.start_valid way.planned.first falls ((stateAt_past (Nat.le_refl _)).trans ran)
  have plan : ({ q with labels := scanned } : Plan) = q := by rw [← other.planned.labelled]
  rw [List.take_length,remains,plan,again] at thinned
  cases thinned
  have settles := Draft.thin_resolveDefaults scanned.isOld resolved
  exact Except.ok.inj (settled.symm.trans settles)

theorem debug_labels_only (settings : Settings) {told plain : Code} {one two : DecodedBody}
    (accepted : Code.ofItem c shape item file { settings with emitDebugInfo := true } = .ok told)
    (without : Code.ofItem c shape item file { settings with emitDebugInfo := false } = .ok plain)
    (scan : LabelTable.scan item = .ok labels)
    (labelled : Code.bodyOf c item file { settings with emitDebugInfo := true } = .ok one)
    (unlabelled : Code.bodyOf c item file { settings with emitDebugInfo := false } = .ok two) :
    told.tryBlocks = plain.tryBlocks ∧ (labels.LandAlike one two → told.eventsWithin plain = plain.events) := by
  obtain ⟨scanned,info,more,p,start,final,built⟩ := ofItem_built accepted
  obtain ⟨again,absent,same,q,entry,ending,other⟩ := ofItem_built without
  have one_body := built.body
  have two_body := other.body
  rw [labelled] at one_body
  rw [unlabelled] at two_body
  cases one_body
  cases two_body
  have first := built.scan
  rw [scan] at first
  cases first
  have second := other.scan
  rw [scan] at second
  cases second
  -- Without debug information the table stays as it was scanned.
  obtain rfl : same = labels := by
    have debug := other.debug
    simp only [Code.debugInfo,Bool.false_and,Bool.false_eq_true,if_false,Except.ok.injEq,Prod.mk.injEq] at debug
    exact debug.2.symm
  have grown := LabelTable.debugInfo_grown (LabelTable.scan_laid built.scan).distinct built.debug
  have prepared := grown.prepare other.way.prepared
  rw [built.way.prepared] at prepared
  cases prepared
  refine ⟨built.blocks.trans other.blocks.symm,?_⟩
  intro alike
  refine Code.eventsWithin_eq same.isOld ?_
  rw [built.events,other.events,built.way.thinned other.way grown alike]
  rfl

-- A branch over a return and an empty instruction, to address 6.
def branchOverNop : CodeItem where
  registers := 3
  ins := 2
  outs := 0
  debugInfo := 1
  units := #[0x2001,0x0138,0x0005,0x1012,0x000e,0x0000,0x000e]
  tries := []
  handlers := []

def intFloat : MethodShape := ⟨.object "a/T",true,⟨[.int,.float],.void⟩⟩

def debugStep (step : UInt8) : Container := { bare with bytes := #[0x00,0x01,0x00,step,0x00] }

-- The return at address 4 has a line.
theorem debug_labels_only_returnLine :
    ∃ told plain one two labels,
      Code.ofItem (debugStep 0x4a) intFloat branchOverNop none { emitDebugInfo := true } = .ok told ∧
      Code.ofItem (debugStep 0x4a) intFloat branchOverNop none { emitDebugInfo := false } = .ok plain ∧
      LabelTable.scan branchOverNop = .ok labels ∧
      Code.bodyOf (debugStep 0x4a) branchOverNop none { emitDebugInfo := true } = .ok one ∧
      Code.bodyOf (debugStep 0x4a) branchOverNop none { emitDebugInfo := false } = .ok two ∧
      labels.LandAlike one two ∧ told.events.length = plain.events.length + 1 ∧
      told.tryBlocks = plain.tryBlocks ∧ told.eventsWithin plain = plain.events := by
  obtain ⟨told,plain,accepted,without,longer⟩ : ∃ told plain,
      Code.ofItem (debugStep 0x4a) intFloat branchOverNop none { emitDebugInfo := true } = .ok told ∧
      Code.ofItem (debugStep 0x4a) intFloat branchOverNop none { emitDebugInfo := false } = .ok plain ∧
      told.events.length = plain.events.length + 1 := ⟨_,_,rfl,rfl,rfl⟩
  obtain ⟨labels,one,two,scan,labelled,unlabelled,first,second⟩ : ∃ labels one two,
      LabelTable.scan branchOverNop = .ok labels ∧
      Code.bodyOf (debugStep 0x4a) branchOverNop none { emitDebugInfo := true } = .ok one ∧
      Code.bodyOf (debugStep 0x4a) branchOverNop none { emitDebugInfo := false } = .ok two ∧
      landings [] one.items = [(0,true),(4,true),(6,false),(7,false)] ∧
      landings [] two.items = [(0,true),(6,false),(7,false)] := ⟨_,_,_,rfl,rfl,rfl,rfl,rfl⟩
  have alike : labels.LandAlike one two := by
    have same : ∀ here ∈ landings [] one.items, ∀ there ∈ landings [] two.items, here.1 = there.1 → here.2 = there.2 := by
      rw [first,second]
      decide
    exact fun here here_in there there_in at_one _ => same here here_in there there_in at_one
  obtain ⟨blocks,events⟩ := debug_labels_only {} accepted without scan labelled unlabelled
  exact ⟨told,plain,one,two,labels,accepted,without,scan,labelled,unlabelled,alike,longer,blocks,events alike⟩

-- The empty instruction after the return has a line. Its label hides that control does not come to
-- address 6 from above, so register 0 after the return is joined with register 0 at the branch, and
-- the constant becomes a float.
theorem nopLine_changes_code :
    ∃ told plain,
      Code.ofItem (debugStep 0x59) intFloat branchOverNop none { emitDebugInfo := true } = .ok told ∧
      Code.ofItem (debugStep 0x59) intFloat branchOverNop none { emitDebugInfo := false } = .ok plain ∧
      told.events[6]? = some (.insn (.store .float 2)) ∧ plain.events[6]? = some (.insn (.store .int 2)) ∧
      told.eventsWithin plain ≠ plain.events := by
  refine ⟨_,_,rfl,rfl,rfl,rfl,?_⟩
  decide

end Restack
