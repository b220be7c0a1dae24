import Mathlib
import Restack.Proofs.LabelPlacement
import Restack.Proofs.Machine.Slots

namespace Restack

open Lowering

-- Named parameters are variables of the whole body: of their types, in the slots of the registers they arrive in, from
-- the label of address 0 to the label of the end. The last event is the label of the end. The label of address 0 is
-- the first event if an instruction starts there, and is nowhere if the code begins with data.

variable {c : Container} {shape : MethodShape} {item : CodeItem} {file : Option String} {settings : Settings}
  {labels : LabelTable} {p : Plan} {start final : State} {code : Code} {slots : Slots} {f g : Frame} {types : List Descriptor}
  {type : Descriptor} {a j m n q : Nat} {label : Label}

def slotsBefore (types : List Descriptor) (j : Nat) : Nat := ((types.take j).map Descriptor.slots).sum

theorem slotsBefore_succ : slotsBefore (type :: types) (j + 1) = type.slots + slotsBefore types j := by simp [slotsBefore]

def MethodShape.arrival (shape : MethodShape) (slots : Slots) (j : Nat) : Nat :=
  slots.firstIn + ((if shape.isStatic then 0 else 1) + slotsBefore shape.signature.args j)

theorem Descriptor.slots_of_value (value : type ≠ .void) : type.slots = 2 ∨ type.slots = 1 ∧ type.isWide = false := by
  cases type <;> simp [Descriptor.slots,Descriptor.isWide] at value ⊢

-- Arguments come in from below, so that none destroys another.

theorem entered_keeps (ran : types.foldlM enterArgument (f,n) = .ok (g,m)) (below : q < n)
    (safe : q + 1 < n ∨ (f.state q).isWide = false) : g.state q = f.state q := by
  induction types generalizing f n with
  | nil =>
    cases ran
    rfl
  | cons type types ih =>
    simp only [List.foldlM_cons,enterArgument,bind_eq_ok,pure_eq_ok] at ran
    obtain ⟨_,⟨h,put,rfl⟩,ran⟩ := ran
    have kept : h.state q = f.state q := by
      rw [(Frame.set_state put).2.2.2 q,if_neg (by omega),if_neg (by omega),if_neg]
      rintro ⟨next,wide⟩
      rcases safe with lower | narrow
      · omega
      · rw [narrow] at wide
        cases wide
    rw [← kept]
    refine ih ran (by omega) ?_
    rw [kept]
    exact safe.imp_left fun lower => by omega

theorem entered_holds (ran : types.foldlM enterArgument (f,n) = .ok (g,m)) (here : types[j]? = some type) :
    n + slotsBefore types j < f.size ∧ (type ≠ .void → g.state (n + slotsBefore types j) = .typed type) := by
  induction types generalizing f n j with
  | nil => cases here
  | cons first types ih =>
    simp only [List.foldlM_cons,enterArgument,bind_eq_ok,pure_eq_ok] at ran
    obtain ⟨_,⟨h,put,rfl⟩,ran⟩ := ran
    obtain ⟨size,inside,-,states⟩ := Frame.set_state put
    cases j with
    | zero =>
      cases here
      rw [show slotsBefore (type :: types) 0 = 0 from rfl,Nat.add_zero]
      refine ⟨inside,fun value => ?_⟩
      have written : h.state n = .typed type := by rw [states,if_pos rfl]
      refine (entered_keeps ran ?_ ?_).trans written
      · rcases Descriptor.slots_of_value value with two | ⟨one,-⟩ <;> omega
      · rw [written]
        exact (Descriptor.slots_of_value value).imp (fun two => by omega) And.right
    | succ j =>
      have later := ih ran here
      rw [size] at later
      rw [slotsBefore_succ,← Nat.add_assoc]
      exact later

theorem entryFrame_arguments (done : entryFrame shape slots = .ok f) (here : shape.signature.args[j]? = some type) :
    shape.arrival slots j < slots.registers ∧ (type ≠ .void → f.state (shape.arrival slots j) = .typed type) := by
  obtain ⟨first,begun,ran⟩ := entryFrame_ok done
  have size : first.size = slots.registers := by
    rcases begun with ⟨-,rfl⟩ | ⟨-,put⟩
    · exact Frame.ofSize_size _
    · exact (Frame.set_state put).1.trans (Frame.ofSize_size _)
  have holds := entered_holds ran here
  rw [size,Nat.add_assoc] at holds
  exact holds

def namedArguments (types : List Descriptor) (names : List (Option String)) : List Nat :=
  (List.range types.length).filter fun j => (names[j]?.join).isSome

structure LocalVar.Names (start stop : Label) (types : List Descriptor) (names : List (Option String)) (j : Nat) (var : LocalVar) : Prop where
  type : ∃ type, types[j]? = some type ∧ var.desc = type.text
  name : names[j]? = some (some var.name)
  signature : var.signature = none
  start : var.start = start
  stop : var.stop = stop

theorem parameterLocals_named (start stop : Label) (slot : Nat) (types : List Descriptor) (names : List (Option String)) :
    List.Forall₂ (fun j var => LocalVar.Names start stop types names j var ∧ var.slot = slot + slotsBefore types j)
      (namedArguments types names) (Code.parameterLocals start stop slot types names) := by
  induction types generalizing slot names with
  | nil => exact .nil
  | cons type types ih =>
    cases names with
    | nil =>
      have none : namedArguments (type :: types) [] = [] := by simp [namedArguments]
      rw [none]
      exact .nil
    | cons name names =>
      have indices : namedArguments (type :: types) (name :: names) =
          (if name.isSome then [0] else []) ++ (namedArguments types names).map Nat.succ := by
        simp only [namedArguments,List.length_cons,List.range_succ_eq_map,List.filter_cons,List.getElem?_cons_zero,List.filter_map]
        cases name <;> rfl
      have further : List.Forall₂ (fun j var => LocalVar.Names start stop (type :: types) (name :: names) j var ∧
          var.slot = slot + slotsBefore (type :: types) j) ((namedArguments types names).map Nat.succ)
          (Code.parameterLocals start stop (slot + type.slots) types names) := by
        refine List.forall₂_map_left_iff.mpr ((ih (slot + type.slots) names).imp ?_)
        rintro j var ⟨known,place⟩
        refine ⟨⟨known.type,known.name,known.signature,known.start,known.stop⟩,?_⟩
        rw [place,slotsBefore_succ,Nat.add_assoc]
      rw [indices,Code.parameterLocals]
      cases name with
      | none => exact further
      | some name => exact .cons ⟨⟨⟨type,rfl,rfl⟩,rfl,rfl,rfl,rfl⟩,rfl⟩ further

-- The first and the last label.

theorem HandsOn.label_stands {units : CodeUnits} {body : DecodedBody}
    (hands : HandsOn c units labels labels.starts [.label labels.stop labels.stopLabel] body) (whole : body.ending = .ok ())
    (member : .label a label ∈ body.items) : a = labels.stop ∨ a ∈ labels.starts := by
  cases hands with
  | upto => cases whole
  | @all handed same each =>
    rcases List.mem_append.mp member with inside | last
    · obtain ⟨x,listed,here⟩ := List.mem_flatMap.mp inside
      rcases List.mem_append.mp here with placed | instruction
      · obtain ⟨_,-,equal⟩ := Option.map_eq_some_iff.mp (Option.mem_toList.mp placed)
        cases equal
        exact .inr (same ▸ List.mem_map_of_mem listed)
      · simp at instruction
    · simp only [List.mem_singleton,BodyItem.label.injEq] at last
      exact .inl last.1

theorem HandsOn.completed {units : CodeUnits} {body : DecodedBody} {last : List BodyItem}
    (hands : HandsOn c units labels labels.starts last body) (whole : body.ending = .ok ()) : ∃ before, body.items = before ++ last := by
  cases hands with
  | upto => cases whole
  | all => exact ⟨_,rfl⟩

namespace Translates

variable (way : Translates c shape item labels p start final)
include way

theorem label_first (surveyed : labels.Surveyed item) (events : code.events = final.draft.events.toList)
    (stands : 0 = labels.stop ∨ 0 ∈ labels.starts) (named : labels.labelAt? 0 = some label) :
    code.events.head? = some (.label label) := by
  obtain ⟨j,here⟩ := List.getElem?_of_mem ((ofCode_handsOn surveyed c).label_item way.whole stands named)
  -- No item stands above address 0.
  obtain rfl : j = 0 := by
    refine Nat.eq_zero_of_not_pos fun later => ?_
    obtain ⟨inside,-⟩ := List.getElem?_eq_some_iff.mp here
    exact absurd (way.place_order (List.getElem?_eq_getElem (Nat.lt_of_le_of_lt (Nat.zero_le j) inside)) here later) (Nat.not_lt_zero _)
  obtain ⟨m,u,v,spans,last,-⟩ := way.label_event here
  cases spans.before
  have first : start.draft.events.size = 0 := by
    rw [way.planned.first]
    rfl
  have zero : Spans p start (item.body c labels) 0 0 (.label 0 label) start v :=
    ⟨spans.here,spans.before,spans.after,Nat.le_of_eq first,Nat.lt_of_le_of_lt (Nat.zero_le m) spans.high⟩
  have inside : 0 < final.draft.events.size := by
    have grown := (way.final_outline spans.after).length_le
    simp only [Draft.outline_length] at grown
    omega
  rcases way.span_label zero (Array.getElem?_eq_getElem inside) with ⟨-,same⟩ | ⟨-,waits,-⟩
  · rw [List.head?_eq_getElem?,events]
    simpa [Array.getElem?_eq_getElem inside] using same
  · rw [way.planned.first] at waits
    exact absurd rfl waits

theorem label_last (surveyed : labels.Surveyed item) (events : code.events = final.draft.events.toList) :
    code.events.getLast? = some (.label labels.stopLabel) := by
  obtain ⟨before,items⟩ := (ofCode_handsOn surveyed c).completed way.whole
  have here : (item.body c labels)[before.length]? = some (.label labels.stop labels.stopLabel) := by
    rw [CodeItem.body,items]
    simp
  obtain ⟨m,u,v,spans,last,found⟩ := way.label_event here
  obtain ⟨ended,ends⟩ := way.ends
  have length : (item.body c labels).length = before.length + 1 := by rw [CodeItem.body,items]; simp
  have same := (stateAt_past (Nat.le_of_eq length)).trans ends.ran
  rw [spans.after] at same
  cases same
  have size : final.draft.events.size = m + 1 := by
    rw [← Draft.outline_length,ends.settles.outline,Draft.outline_length]
    exact last.symm
  rw [List.getLast?_eq_getElem?,events,Array.length_toList,size]
  simpa using found

theorem label_absent (surveyed : labels.Surveyed item) (events : code.events = final.draft.events.toList)
    (named : labels.labelAt? a = some label) (member : .label label ∈ code.events) : a = labels.stop ∨ a ∈ labels.starts := by
  obtain ⟨n,found⟩ := List.getElem?_of_mem member
  obtain ⟨j,b,u,v,spans,-⟩ := way.label_spans (event_of events found)
  have there := List.mem_of_getElem? spans.here
  obtain rfl := way.laid.distinct.address named (way.label_item there)
  exact (ofCode_handsOn surveyed c).label_stands way.whole there

end Translates

theorem Code.localsOf_parts {info : DebugInfo} {locals : List LocalVar} (done : Code.localsOf info shape slots labels = .ok locals) :
    ∃ first scopes, labels.labelAt? 0 = some first ∧
      info.locals.mapM (Code.scopeLocal slots (Code.parameterLocals first labels.stopLabel (if shape.isStatic then 0 else 1)
        shape.signature.args info.parameterNames)) = .ok scopes ∧
      locals = Code.parameterLocals first labels.stopLabel (if shape.isStatic then 0 else 1) shape.signature.args
        info.parameterNames ++ scopes.flatten := by
  unfold Code.localsOf at done
  split at done
  · simp at done
  · rename_i first entry
    simp only [bind_eq_ok,pure_eq_ok] at done
    obtain ⟨scopes,mapped,same⟩ := done
    exact ⟨first,scopes,entry,mapped,same.symm⟩

structure LocalVar.Records (shape : MethodShape) (slots : Slots) (entry : Frame) (start stop : Label) (names : List (Option String))
    (j : Nat) (var : LocalVar) : Prop extends LocalVar.Names start stop shape.signature.args names j var where
  arrives : ∀ type, shape.signature.args[j]? = some type → type ≠ .void → entry.state (shape.arrival slots j) = .typed type
  slot : slots.slot (shape.arrival slots j) = .ok var.slot

theorem parameterLocals_records {entry : Frame} {first stop : Label} {names : List (Option String)}
    (entered : entryFrame shape slots = .ok entry) :
    List.Forall₂ (LocalVar.Records shape slots entry first stop names) (namedArguments shape.signature.args names)
      (Code.parameterLocals first stop (if shape.isStatic then 0 else 1) shape.signature.args names) := by
  refine (parameterLocals_named first stop _ shape.signature.args names).imp ?_
  rintro j var ⟨known,place⟩
  obtain ⟨type,here,-⟩ := known.type
  refine ⟨known,?_,?_⟩
  · intro other there value
    exact (entryFrame_arguments entered there).2 value
  · rw [place]
    exact Slots.slot_incoming (entryFrame_arguments entered here).1

theorem parameters_span_body (wanted : settings.emitDebugInfo = true) (present : item.debugInfo ≠ 0)
    (accepted : Code.ofItem c shape item file settings = .ok code) :
    ∃ scanned info labels slots entry first parameters scopes, LabelTable.scan item = .ok scanned ∧
      DebugInfo.read c item.debugInfo file scanned = .ok (info,labels) ∧
      Slots.ofCounts item.registers.toNat item.ins.toNat = .ok slots ∧ entryFrame shape slots = .ok entry ∧
      code.locals = parameters ++ scopes.flatten ∧ info.locals.mapM (Code.scopeLocal slots parameters) = .ok scopes ∧
      List.Forall₂ (LocalVar.Records shape slots entry first labels.stopLabel info.parameterNames)
        (namedArguments shape.signature.args info.parameterNames) parameters ∧
      labels.labelAt? 0 = some first ∧ labels.labelAt? item.units.size = some labels.stopLabel ∧
      code.events.getLast? = some (.label labels.stopLabel) ∧
      -- Code that begins with data has no label at its first address.
      (code.events.head? = some (.label first) ↔ item.units.size = 0 ∨ 0 ∈ (Walk.ofCode item.units).starts) ∧
      (.label first ∈ code.events ↔ item.units.size = 0 ∨ 0 ∈ (Walk.ofCode item.units).starts) := by
  obtain ⟨scanned,found,labels,p,start,final,built⟩ := ofItem_built accepted
  have debug := built.debug
  simp only [Code.debugInfo,wanted,present,ne_eq,not_false_eq_true,decide_true,Bool.and_true,if_true,bind_eq_ok,pure_eq_ok,
    Prod.mk.injEq] at debug
  obtain ⟨⟨info,labels⟩,read,rfl,rfl⟩ := debug
  have way := built.way
  have surveyed := built.surveyed
  obtain ⟨first,scopes,named,mapped,locals⟩ := Code.localsOf_parts (built.told info rfl).2
  have entered := way.planned.frame
  have stands : item.units.size = 0 ∨ 0 ∈ (Walk.ofCode item.units).starts ↔ 0 = labels.stop ∨ 0 ∈ labels.starts := by
    rw [surveyed.starts,surveyed.laid.stop,eq_comm]
  have stopped : labels.labelAt? item.units.size = some labels.stopLabel := by
    rw [← surveyed.laid.stop]
    exact surveyed.stop_named
  refine ⟨scanned,info,labels,p.slots,start.frame,first,_,scopes,built.scan,read,way.planned.slots,entered,locals,mapped,
    parameterLocals_records entered,named,stopped,way.label_last surveyed built.events,?_,?_⟩
  · rw [stands]
    refine ⟨fun head => ?_,fun stands => way.label_first surveyed built.events stands named⟩
    exact way.label_absent surveyed built.events named (List.mem_of_head? head)
  · rw [stands]
    refine ⟨way.label_absent surveyed built.events named,fun stands => ?_⟩
    exact List.mem_of_head? (way.label_first surveyed built.events stands named)

-- A method of an object with a long, an int and a float. The int has no name.
def wideArguments : CodeItem where
  registers := 6
  ins := 5
  outs := 0
  debugInfo := 1
  units := #[0x000e]
  tries := []
  handlers := []

def wideShape : MethodShape := ⟨.object "a/T",false,⟨[.long,.int,.float],.void⟩⟩

def wideNames : Container where
  __ := bare
  bytes := #[0x00,0x01,0x03,0x01,0x00,0x02,0x00]
  strings := #["n","x"]

theorem parameters_span_body_wideArguments :
    ∃ code, Code.ofItem wideNames wideShape wideArguments none {} = .ok code ∧
      code.locals = [⟨"n","J",none,⟨0⟩,⟨1⟩,1⟩,⟨"x","F",none,⟨0⟩,⟨1⟩,4⟩] ∧
      ∃ scanned info labels slots entry first parameters, LabelTable.scan wideArguments = .ok scanned ∧
        DebugInfo.read wideNames 1 none scanned = .ok (info,labels) ∧ entryFrame wideShape slots = .ok entry ∧
        List.Forall₂ (LocalVar.Records wideShape slots entry first labels.stopLabel info.parameterNames)
          (namedArguments wideShape.signature.args info.parameterNames) parameters ∧
        code.events.head? = some (.label first) ∧ code.events.getLast? = some (.label labels.stopLabel) := by
  obtain ⟨code,accepted,locals⟩ : ∃ code, Code.ofItem wideNames wideShape wideArguments none {} = .ok code ∧
      code.locals = [⟨"n","J",none,⟨0⟩,⟨1⟩,1⟩,⟨"x","F",none,⟨0⟩,⟨1⟩,4⟩] := ⟨_,rfl,rfl⟩
  obtain ⟨scanned,info,labels,slots,entry,first,parameters,_,scan,read,-,entered,-,-,records,-,-,last,head,-⟩ :=
    parameters_span_body rfl (by decide) accepted
  exact ⟨code,accepted,locals,scanned,info,labels,slots,entry,first,parameters,scan,read,entered,records,
    head.mpr (.inr (by decide)),last⟩

-- An array without elements, and then a return. The parameter begins at a label that is nowhere in the body.
def dataFirst : CodeItem where
  registers := 1
  ins := 1
  outs := 0
  debugInfo := 1
  units := #[0x0300,0x0001,0x0000,0x0000,0x000e]
  tries := []
  handlers := []

def oneName : Container where
  __ := bare
  bytes := #[0x00,0x0a,0x01,0x01,0x00]
  strings := #["x"]

theorem dataFirst_unplaced :
    ∃ code, Code.ofItem oneName ⟨.object "a/T",true,⟨[.int],.void⟩⟩ dataFirst none {} = .ok code ∧
      code.locals = [⟨"x","I",none,⟨0⟩,⟨1⟩,0⟩] ∧ code.events.getLast? = some (.label ⟨1⟩) ∧
      code.events.head? ≠ some (.label ⟨0⟩) ∧ .label ⟨0⟩ ∉ code.events := by
  refine ⟨_,rfl,rfl,rfl,?_,?_⟩
  · decide
  · decide

end Restack
