import Mathlib
import Restack.Proofs.Body.Survey
import Restack.Proofs.Lowering.Handlers
import Restack.Proofs.Lowering.Run

namespace Restack

open Lowering

-- The way from a stored body to its stack code: labels, a plan, and the state in
-- which lowering ends.

variable {c : Container} {shape : MethodShape} {item : CodeItem} {labels : LabelTable} {p : Plan} {start final : State}
  {file : Option String} {settings : Settings} {code : Code} {address : Nat} {label : Label} {opcode : Opcode}
  {i : Instruction}

structure Translates (c : Container) (shape : MethodShape) (item : CodeItem) (labels : LabelTable) (p : Plan)
    (start final : State) : Prop where
  laid : labels.Laid item
  prepared : prepare c shape item labels = .ok (p,start)
  finished : finish p start (DecodedBody.ofCode c item.units labels) = .ok final

def Code.bodyOf (c : Container) (item : CodeItem) (file : Option String) (settings : Settings) : Except Fault DecodedBody := do
  let labels ← LabelTable.scan item
  let (_,labels) ← Code.debugInfo c item file settings labels
  return DecodedBody.ofCode c item.units labels

-- All that an accepted body was made from, and what of it was kept.
structure Code.Built (c : Container) (shape : MethodShape) (item : CodeItem) (file : Option String) (settings : Settings)
    (code : Code) (scanned : LabelTable) (info : Option DebugInfo) (labels : LabelTable) (p : Plan) (start final : State) : Prop where
  scan : LabelTable.scan item = .ok scanned
  debug : Code.debugInfo c item file settings scanned = .ok (info,labels)
  way : Translates c shape item labels p start final
  events : code.events = final.draft.events.toList
  blocks : code.tryBlocks = p.handlers.blocks
  plain : info = none → code.lines = [] ∧ code.locals = []
  told : ∀ found, info = some found →
    code.lines = found.lines.map (fun line => (line.line,line.label)) ∧ Code.localsOf found shape p.slots labels = .ok code.locals

theorem Code.Built.surveyed {scanned : LabelTable} {info : Option DebugInfo}
    (built : Code.Built c shape item file settings code scanned info labels p start final) : labels.Surveyed item :=
  LabelTable.labels_surveyed built.scan built.debug

theorem Code.Built.body {scanned : LabelTable} {info : Option DebugInfo}
    (built : Code.Built c shape item file settings code scanned info labels p start final) :
    Code.bodyOf c item file settings = .ok (DecodedBody.ofCode c item.units labels) := by
  simp only [Code.bodyOf,bind_eq_ok,pure_eq_ok]
  exact ⟨scanned,built.scan,(info,labels),built.debug,rfl⟩

theorem ofItem_built (accepted : Code.ofItem c shape item file settings = .ok code) :
    ∃ scanned info labels p start final, Code.Built c shape item file settings code scanned info labels p start final := by
  simp only [Code.ofItem,bind_eq_ok] at accepted
  obtain ⟨scanned,scan,⟨info,labels⟩,debug,⟨p,start⟩,prepared,events,lowered,done⟩ := accepted
  simp only [lower,bind_eq_ok,pure_eq_ok] at lowered
  obtain ⟨final,finished,rfl⟩ := lowered
  have surveyed := LabelTable.labels_surveyed scan debug
  have way : Translates c shape item labels p start final := ⟨surveyed.laid,prepared,finished⟩
  refine ⟨scanned,info,labels,p,start,final,?_⟩
  dsimp only at done
  split at done
  · cases done
    exact ⟨scan,debug,way,rfl,rfl,fun _ => ⟨rfl,rfl⟩,by simp⟩
  · simp only [bind_eq_ok,pure_eq_ok] at done
    obtain ⟨locals,found,rfl⟩ := done
    refine ⟨scan,debug,way,rfl,rfl,by simp,?_⟩
    rintro _ ⟨⟩
    exact ⟨rfl,found⟩

theorem ofItem_translates (accepted : Code.ofItem c shape item file settings = .ok code) :
    ∃ labels p start final, Translates c shape item labels p start final ∧
      Code.bodyOf c item file settings = .ok (DecodedBody.ofCode c item.units labels) ∧
      code.events = final.draft.events.toList ∧ code.tryBlocks = p.handlers.blocks := by
  obtain ⟨scanned,info,labels,p,start,final,built⟩ := ofItem_built accepted
  exact ⟨labels,p,start,final,built.way,built.body,built.events,built.blocks⟩

structure Planned (c : Container) (shape : MethodShape) (item : CodeItem) (labels : LabelTable) (p : Plan)
    (start : State) : Prop where
  slots : Slots.ofCounts item.registers.toNat item.ins.toNat = .ok p.slots
  handlers : Handlers.ofCode c item labels = .ok p.handlers
  frame : entryFrame shape p.slots = .ok start.frame
  first : start = { frame := start.frame }
  shaped : p.shape = shape
  labelled : p.labels = labels

theorem prepare_planned (prepared : prepare c shape item labels = .ok (p,start)) : Planned c shape item labels p start := by
  simp only [prepare,bind_eq_ok,pure_eq_ok,Prod.mk.injEq] at prepared
  obtain ⟨slots,counted,frame,entered,handlers,found,rfl,rfl⟩ := prepared
  exact ⟨counted,found,entered,rfl,rfl,rfl⟩

namespace Translates

theorem planned (way : Translates c shape item labels p start final) : Planned c shape item labels p start :=
  prepare_planned way.prepared

theorem slots_eq (way : Translates c shape item labels p start final) :
    p.slots = ⟨item.registers.toNat,item.ins.toNat⟩ ∧ p.slots.ins ≤ p.slots.registers := by
  have counted := way.planned.slots
  unfold Slots.ofCounts at counted
  split at counted
  · simp at counted
  · rename_i enough
    rw [← Except.ok.inj counted]
    exact ⟨rfl,Nat.le_of_not_lt enough⟩

theorem registered (way : Translates c shape item labels p start final) :
    p.handlers.Registered c item labels := Handlers.ofCode_registered way.laid way.planned.handlers

theorem label_item (way : Translates c shape item labels p start final)
    (member : .label address label ∈ (DecodedBody.ofCode c item.units labels).items) :
    labels.labelAt? address = some label := ofCode_items way.laid member

theorem decoded (way : Translates c shape item labels p start final)
    (member : .instruction address opcode i ∈ (DecodedBody.ofCode c item.units labels).items) :
    ∃ e, .instruction address e ∈ (Walk.ofCode item.units).blocks ∧ Decoded c labels e i := by
  obtain ⟨e,present,resolved,-⟩ := ofCode_items way.laid member
  exact ⟨e,present,resolve_decoded way.laid present resolved⟩

theorem isJoin (way : Translates c shape item labels p start final)
    (member : .label address label ∈ (DecodedBody.ofCode c item.units labels).items) (targeted : labels.Targeted label)
    (s : State) : isJoin p address label s = true := by
  obtain ⟨other,entry,found,named,mark⟩ := targeted
  obtain ⟨here,placed,same⟩ := Option.map_eq_some_iff.mp (way.label_item member)
  obtain rfl := way.laid.distinct.apart _ _ _ _ found placed (named.trans same.symm)
  simp [Lowering.isJoin,way.planned.labelled,found,mark]

end Translates

end Restack
