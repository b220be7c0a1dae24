import Mathlib
import Restack.Proofs.Body.DebugProgram
import Restack.Proofs.Body.Resolve
import Restack.Proofs.Edges.Orderly

namespace Restack

open Lowering

-- Labels are placed where instructions start and at the end of the code, in the order of their
-- addresses. Code, exception table and debug information get their labels at different times, but
-- all of them for such addresses, so each of these labels is placed, and once.

variable {c : Container} {shape : MethodShape} {item : CodeItem} {file : Option String} {settings : Settings}
  {labels t : LabelTable} {p : Plan} {start final : State} {code : Code} {range : TryItem} {block : TryBlock}
  {a j m n : Nat} {label other : Label}

def Code.PlacedAt (code : Code) (label : Label) (m : Nat) : Prop := ∀ n, code.events[n]? = some (.label label) ↔ n = m

-- A range starts at an instruction and ends within the code.

theorem markTry_range {u : LabelTable} (done : t.markTry item range = .ok u) :
    range.start.toNat ∈ t.starts ∧ range.past ≤ t.stop := by
  simp only [LabelTable.markTry,guard_eq_ok,bind_eq_ok] at done
  obtain ⟨starts,past,stops,inside,-⟩ := done
  obtain rfl := TryItem.stop_past stops
  exact ⟨by simpa [LabelTable.isStart] using starts,Nat.le_of_not_lt inside⟩

theorem scan_range (scanned : LabelTable.scan item = .ok t) (member : range ∈ item.tries) :
    range.start.toNat ∈ (Walk.ofCode item.units).starts ∧ range.past ≤ item.units.size := by
  have surveyed := LabelTable.scan_surveyed scanned
  rw [← surveyed.starts,← surveyed.laid.stop]
  simp only [LabelTable.scan,bind_eq_ok,pure_eq_ok] at scanned
  obtain ⟨-,-,⟨-,-⟩,-,marked,-,tried,trying,rfl⟩ := scanned
  rw [LabelTable.ensure_starts,LabelTable.ensure_stop]
  obtain ⟨before,after,split⟩ := List.append_of_mem member
  rw [split] at trying
  obtain ⟨u,-,rest⟩ := foldlM_append_ok.mp trying
  rw [List.foldlM_cons,bind_eq_ok] at rest
  obtain ⟨v,step,rest⟩ := rest
  rw [(LabelTable.kept_starts u.starts).markTries ((LabelTable.kept_starts _).markTry rfl step) rest,
    (LabelTable.kept_stop u.stop).markTries ((LabelTable.kept_stop _).markTry rfl step) rest]
  exact markTry_range step

theorem LabelTable.Surveyed.targeted_anchors (surveyed : labels.Surveyed item) (targeted : labels.Targeted label) :
    labels.Anchors label := by
  obtain ⟨a,entry,found,named,mark⟩ := targeted
  exact ⟨a,surveyed.marks a ⟨entry,found,mark⟩,by simp [LabelTable.labelAt?,found,named]⟩

theorem HandsOn.label_item {units : CodeUnits} {body : DecodedBody}
    (hands : HandsOn c units t t.starts [.label t.stop t.stopLabel] body) (whole : body.ending = .ok ())
    (stands : a = t.stop ∨ a ∈ t.starts) (named : t.labelAt? a = some label) : .label a label ∈ body.items := by
  cases hands with
  | upto => cases whole
  | @all handed same each =>
    rcases stands with rfl | start
    · exact List.mem_append_right _ (by simp [LabelTable.stopLabel,named])
    · rw [← same] at start
      obtain ⟨x,member,rfl⟩ := List.mem_map.mp start
      refine List.mem_append_left _ (List.mem_flatMap.mpr ⟨x,member,List.mem_append_left _ ?_⟩)
      simp [DecodedBody.labelItems,named]

namespace Translates

variable (way : Translates c shape item labels p start final)
include way

theorem whole : (DecodedBody.ofCode c item.units labels).ending = .ok () := by
  have done := way.finished
  simp only [finish,DecodedBody.foldlM,bind_eq_ok,pure_eq_ok] at done
  obtain ⟨_,⟨_,-,_,ends,-⟩,-⟩ := done
  exact ends

theorem label_event (here : (item.body c labels)[j]? = some (.label a label)) :
    ∃ m u v, Spans p start (item.body c labels) j m (.label a label) u v ∧ m + 1 = v.draft.events.size ∧
      final.draft.events[m]? = some (.label label) := by
  obtain ⟨last,ends⟩ := way.ends
  obtain ⟨u,before⟩ := stateAt_ok ends.ran j
  obtain ⟨v,after⟩ := stateAt_ok ends.ran (j + 1)
  obtain ⟨_,same,done⟩ := (stateAt_succ here).mp after
  cases before.symm.trans same
  have size : v.draft.events.size = u.draft.events.size + (labelDrops p a label u).length + 1 := by
    rw [← Draft.outline_length,label_outline (way.stateAt_valid before) done]
    simp [Nat.add_assoc]
  have spans : Spans p start (item.body c labels) j (u.draft.events.size + (labelDrops p a label u).length)
      (.label a label) u v := ⟨here,before,after,Nat.le_add_right _ _,by omega⟩
  have inside : u.draft.events.size + (labelDrops p a label u).length < final.draft.events.size := by
    have grown := (way.final_outline after).length_le
    simp only [Draft.outline_length] at grown
    omega
  refine ⟨_,u,v,spans,size.symm,?_⟩
  rcases way.span_label spans (Array.getElem?_eq_getElem inside) with ⟨-,same⟩ | ⟨less,-⟩
  · rw [Array.getElem?_eq_getElem inside,same]
  · omega

-- Items have different places, so an item with the same address and kind is the same item.
theorem label_index {one two : Label} {k : Nat} (first : (item.body c labels)[j]? = some (.label a one))
    (second : (item.body c labels)[k]? = some (.label a two)) : j = k := by
  rcases Nat.lt_trichotomy j k with less | same | less
  · exact absurd (way.place_order first second less) (Nat.lt_irrefl _)
  · exact same
  · exact absurd (way.place_order second first less) (Nat.lt_irrefl _)

theorem placed_at (events : code.events = final.draft.events.toList) (here : (item.body c labels)[j]? = some (.label a label)) :
    ∃ m u v, Spans p start (item.body c labels) j m (.label a label) u v ∧ m + 1 = v.draft.events.size ∧
      code.PlacedAt label m := by
  obtain ⟨m,u,v,spans,last,found⟩ := way.label_event here
  refine ⟨m,u,v,spans,last,fun n => ⟨?_,?_⟩⟩
  · intro event
    obtain ⟨k,b,s,t,others,ends⟩ := way.label_spans (event_of events event)
    obtain rfl := way.laid.distinct.address (way.label_item (List.mem_of_getElem? here))
      (way.label_item (List.mem_of_getElem? others.here))
    obtain rfl := way.label_index here others.here
    cases others.after.symm.trans spans.after
    omega
  · rintro rfl
    rw [events]
    simpa using found

theorem anchors_placed (surveyed : labels.Surveyed item) (events : code.events = final.draft.events.toList)
    (anchors : labels.Anchors label) : ∃ m, code.PlacedAt label m := by
  obtain ⟨a,stands,named⟩ := anchors
  obtain ⟨j,here⟩ := List.getElem?_of_mem ((ofCode_handsOn surveyed c).label_item way.whole stands named)
  obtain ⟨m,-,-,-,-,placed⟩ := way.placed_at events here
  exact ⟨m,placed⟩

theorem labels_ordered (events : code.events = final.draft.events.toList) (first : code.events[n]? = some (.label label))
    (second : code.events[m]? = some (.label other)) (before : n < m) :
    ∃ a b, labels.labelAt? a = some label ∧ labels.labelAt? b = some other ∧ a < b := by
  obtain ⟨k,a,s,t,here,ends⟩ := way.label_spans (event_of events first)
  obtain ⟨j,b,u,v,there,last⟩ := way.label_spans (event_of events second)
  refine ⟨a,b,way.label_item (List.mem_of_getElem? here.here),way.label_item (List.mem_of_getElem? there.here),?_⟩
  have earlier : k < j := by
    by_cases above : n < u.draft.events.size
    · exact way.label_before there.before here above
    · -- Both would be the last event of one item.
      have within : Spans p start (item.body c labels) j n (.label b other) u v :=
        ⟨there.here,there.before,there.after,Nat.le_of_not_lt above,Nat.lt_trans before there.high⟩
      obtain ⟨-,-,-,rfl⟩ := way.spans_unique here within
      omega
  have ordered : 2 * a < 2 * b := way.place_order here.here there.here earlier
  omega

end Translates

theorem scopeLocal_labels {slots : Slots} {parameters kept : List LocalVar} {scope : LocalScope} {var : LocalVar}
    (done : Code.scopeLocal slots parameters scope = .ok kept) (member : var ∈ kept) :
    var.start = scope.start ∧ var.stop = scope.stop := by
  simp only [Code.scopeLocal,bind_eq_ok] at done
  obtain ⟨slot,-,done⟩ := done
  split at done
  · cases done
    cases member
  · cases done
    obtain rfl := List.mem_singleton.mp member
    exact ⟨rfl,rfl⟩

namespace Code.Built

variable {scanned : LabelTable} {info : Option DebugInfo} {found : DebugInfo}
  (built : Code.Built c shape item file settings code scanned info labels p start final)
include built

theorem jumps_anchor {insn : Insn} (here : code.events[n]? = some (.insn insn)) (target : label ∈ insn.targets) :
    labels.Anchors label := by
  obtain ⟨k,address,opcode,i,s,t,spans,named⟩ := built.way.jump_spans (event_of built.events here) target
  obtain ⟨e,-,decoded⟩ := built.way.decoded (List.mem_of_getElem? spans.here)
  exact built.surveyed.targeted_anchors (decoded.targets label named)

theorem range_anchors (member : range ∈ item.tries) (opens : labels.labelAt? range.start.toNat = some label) :
    labels.Anchors label := by
  refine ⟨_,.inr ?_,opens⟩
  rw [built.surveyed.starts]
  exact (scan_range built.scan member).1

theorem blocks_anchor (member : block ∈ code.tryBlocks) :
    labels.Anchors block.start ∧ labels.Anchors block.stop ∧ labels.Anchors block.handler := by
  rw [built.blocks] at member
  have handles := built.way.registered.blocks block member
  obtain ⟨type,caught⟩ := Option.isSome_iff_exists.mp handles
  obtain ⟨targeted,-⟩ := built.way.registered.caught _ type caught
  obtain ⟨range,present,-,-,-,opens,closes,-⟩ := (Handlers.ofCode_ranged built.way.planned.handlers).blocks block member
  exact ⟨built.range_anchors present opens,⟨_,labels.snap_stands _,closes⟩,built.surveyed.targeted_anchors targeted⟩

theorem lines_anchor {line : Nat × Label} (member : line ∈ code.lines) : labels.Anchors line.2 := by
  cases known : info with
  | none =>
    rw [(built.plain known).1] at member
    cases member
  | some found =>
    rw [(built.told found known).1] at member
    obtain ⟨number,listed,rfl⟩ := List.mem_map.mp member
    have debug := built.debug
    rw [known] at debug
    exact (debugInfo_anchored (LabelTable.scan_surveyed built.scan) debug).1 number listed

theorem scopes_anchor (known : info = some found) :
    ∃ first kept, labels.labelAt? 0 = some first ∧
      code.locals = Code.parameterLocals first labels.stopLabel (if shape.isStatic then 0 else 1) shape.signature.args
        found.parameterNames ++ kept ∧
      ∀ var ∈ kept, labels.Anchors var.start ∧ labels.Anchors var.stop := by
  subst known
  have locals := (built.told found rfl).2
  unfold Code.localsOf at locals
  split at locals
  · simp at locals
  · rename_i first entry
    simp only [bind_eq_ok,pure_eq_ok] at locals
    obtain ⟨scopes,mapped,same⟩ := locals
    refine ⟨first,scopes.flatten,entry,same.symm,?_⟩
    intro var member
    obtain ⟨one,listed,inside⟩ := List.mem_flatten.mp member
    obtain ⟨scope,held,done⟩ := mem_mapM mapped listed
    have anchored := (debugInfo_anchored (LabelTable.scan_surveyed built.scan) built.debug).2 scope held
    obtain ⟨opens,closes⟩ := scopeLocal_labels done inside
    exact ⟨opens ▸ anchored.1,closes ▸ anchored.2⟩

end Code.Built

-- The labels of a body: each one that its code, its exception table, its line numbers and the
-- variables of its scopes name stands at one place, and labels stand in the order of their
-- addresses. Named parameters are not from scopes: they begin at address 0, where there may be data.
structure Code.LabelsPlaced (code : Code) (shape : MethodShape) (info : Option DebugInfo) (labels : LabelTable) : Prop where
  jumps : ∀ (n : Nat) insn, code.events[n]? = some (.insn insn) → ∀ label ∈ insn.targets, ∃ m, code.PlacedAt label m
  ranges : ∀ block ∈ code.tryBlocks, ∀ label ∈ [block.start,block.stop,block.handler], ∃ m, code.PlacedAt label m
  lines : ∀ line ∈ code.lines, ∃ m, code.PlacedAt line.2 m
  plain : info = none → code.locals = []
  scopes : ∀ found, info = some found → ∃ first kept, labels.labelAt? 0 = some first ∧
    code.locals = Code.parameterLocals first labels.stopLabel (if shape.isStatic then 0 else 1) shape.signature.args
      found.parameterNames ++ kept ∧
    ∀ var ∈ kept, ∀ label ∈ [var.start,var.stop], ∃ m, code.PlacedAt label m
  distinct : labels.Distinct
  ordered : ∀ (n m : Nat) one two, code.events[n]? = some (.label one) → code.events[m]? = some (.label two) → n < m →
    ∃ a b, labels.labelAt? a = some one ∧ labels.labelAt? b = some two ∧ a < b

theorem used_labels_placed (accepted : Code.ofItem c shape item file settings = .ok code) :
    ∃ scanned info labels, LabelTable.scan item = .ok scanned ∧
      Code.debugInfo c item file settings scanned = .ok (info,labels) ∧ code.LabelsPlaced shape info labels := by
  obtain ⟨scanned,info,labels,p,start,final,built⟩ := ofItem_built accepted
  have placed : ∀ label, labels.Anchors label → ∃ m, code.PlacedAt label m :=
    fun label => built.way.anchors_placed built.surveyed built.events
  refine ⟨scanned,info,labels,built.scan,built.debug,?_,?_,?_,fun none => (built.plain none).2,?_,built.way.laid.distinct,?_⟩
  · exact fun n insn here label target => placed label (built.jumps_anchor here target)
  · intro block member label named
    obtain ⟨opens,closes,handles⟩ := built.blocks_anchor member
    simp only [List.mem_cons,List.not_mem_nil,or_false] at named
    rcases named with rfl | rfl | rfl
    · exact placed _ opens
    · exact placed _ closes
    · exact placed _ handles
  · exact fun line member => placed _ (built.lines_anchor member)
  · intro found known
    obtain ⟨first,kept,entry,locals,all⟩ := built.scopes_anchor known
    refine ⟨first,kept,entry,locals,?_⟩
    intro var member label named
    obtain ⟨opens,closes⟩ := all var member
    simp only [List.mem_cons,List.not_mem_nil,or_false] at named
    rcases named with rfl | rfl
    · exact placed _ opens
    · exact placed _ closes
  · exact fun n m one two first second before => built.way.labels_ordered built.events first second before

-- The range ends within an array, and the debug program gives a line to an address there.
def endsInArray : CodeItem where
  registers := 1
  ins := 0
  outs := 0
  debugInfo := 1
  units := #[0x1012,0x0528,0x0300,0x0001,0x0000,0x0000,0x000e]
  tries := [⟨0,3,1⟩]
  handlers := [(1,⟨[],some 6⟩)]

def endsInArrayProgram : Container where
  __ := bare
  bytes := #[0x00,0x01,0x00,0x03,0x00,0x01,0x01,0x3b,0x00]
  strings := #["n","I"]
  types := #[1]

theorem used_labels_placed_endsInArray :
    ∃ code, Code.ofItem endsInArrayProgram ⟨.object "a/T",true,⟨[],.void⟩⟩ endsInArray none {} = .ok code ∧
      code.lines.length = 1 ∧ code.locals.length = 1 ∧ code.tryBlocks.length = 1 ∧
      ∃ scanned info labels, LabelTable.scan endsInArray = .ok scanned ∧
        Code.debugInfo endsInArrayProgram endsInArray none {} scanned = .ok (info,labels) ∧
        code.LabelsPlaced ⟨.object "a/T",true,⟨[],.void⟩⟩ info labels := by
  obtain ⟨code,accepted,lines,locals,blocks⟩ : ∃ code,
      Code.ofItem endsInArrayProgram ⟨.object "a/T",true,⟨[],.void⟩⟩ endsInArray none {} = .ok code ∧
      code.lines.length = 1 ∧ code.locals.length = 1 ∧ code.tryBlocks.length = 1 := ⟨_,rfl,rfl,rfl,rfl⟩
  exact ⟨code,accepted,lines,locals,blocks,used_labels_placed accepted⟩

end Restack
