import Mathlib
import Restack.Proofs.Body.DebugScopes
import Restack.Proofs.Lowering.Run

namespace Restack

-- The scopes and the lines that debug information reports, whatever its program.

variable {c : Container} {item : CodeItem} {offset : UInt32} {file : Option String} {t labels : LabelTable} {info : DebugInfo}
  {ops : List DebugOp} {s u : DebugState} {r k : Nat} {scope : LocalScope} {stop : Label}

-- The first label is that of an address not after the address of the second.
def LabelTable.InTurn (t : LabelTable) (one two : Label) : Prop :=
  ∃ a b, a ≤ b ∧ t.labelAt? a = some one ∧ t.labelAt? b = some two

theorem DebugInfo.read_ran (done : DebugInfo.read c offset file t = .ok (info,labels)) :
    ∃ ops line u, DebugInfo.steps c offset = .ok ops ∧ (∀ op ∈ ops, op ≠ .endSequence) ∧
      ops.foldlM DebugState.step { line, file, labels := t } = .ok u ∧
      info.locals = u.closeAll.locals ∧ info.lines = u.lines ∧ labels = u.labels := by
  obtain ⟨line,one,count,two,names,three,s,final,first,second,third,ran,rfl,rfl⟩ := DebugInfo.read_parts done
  obtain ⟨ops,u,listed,steps,rfl,going⟩ := DebugState.run_listed (Nat.sub_le _ _) ran
  refine ⟨ops,_,u,?_,going,steps,rfl,(DebugState.closeAll_lines u).1,DebugState.closeAll_labels u⟩
  have read : DebugOp.program c c.bytes offset.toNat = .ok (ops,final) := by
    simp only [DebugOp.program,reader_bind_ok]
    exact ⟨line,one,first,count,two,second,names,three,third,listed⟩
  rw [DebugInfo.steps,Reader.valueAt,read]

theorem DebugState.told_fresh (line : Int) (file : Option String) (t labels : LabelTable) :
    Told labels [] { line, file, labels := t } :=
  ⟨rfl,fun _ => rfl,fun _ _ => rfl,fun r k taken => by simp [DebugOp.takenAt] at taken⟩

-- A scope stands between its addresses, and after the scopes that its register had before.

namespace DebugState.Told

variable (told : Told labels ops s) (surveyed : labels.Surveyed item)
include told surveyed

theorem scope_inTurn (found : DebugOp.scopeAt? labels labels.stopLabel ops r k = some scope) : labels.InTurn scope.start scope.stop := by
  obtain ⟨var,opened,rfl⟩ := Option.map_eq_some_iff.mp found
  have start := told.named r k (DebugOp.takenAt_of_opened opened)
  cases ending : DebugOp.endingAt? ops r k with
  | none => exact ⟨_,labels.stop,surveyed.stands_le (placed_stands labels _),start,surveyed.stop_named⟩
  | some j =>
    obtain ⟨later,-,taken⟩ := DebugOp.endingAt_some ending
    exact ⟨_,_,surveyed.placed_mono (DebugOp.addressAt_mono (Nat.le_of_lt later)),start,told.named r j taken⟩

theorem scopes_inTurn (r : Nat) :
    (DebugOp.scopesOf labels stop ops r).Pairwise fun one two => labels.InTurn one.stop two.start := by
  refine List.pairwise_filterMap.mpr (List.pairwise_lt_range.imp_of_mem ?_)
  intro i j _ inside less one first two second
  obtain ⟨_,-,rfl⟩ := Option.map_eq_some_iff.mp first
  obtain ⟨_,opened,rfl⟩ := Option.map_eq_some_iff.mp second
  -- The step that begins the second scope takes the register, if no step before it did.
  have taken := DebugOp.takenAt_of_opened opened
  obtain ⟨k,ending,le⟩ := DebugOp.endingAt_le less (List.mem_range.mp inside) taken
  rw [ending]
  exact ⟨_,_,surveyed.placed_mono (DebugOp.addressAt_mono le),told.named r k (DebugOp.endingAt_some ending).2.2,told.named r j taken⟩

end DebugState.Told

theorem pairwise_of_registers {scopes : List LocalScope} {R : LocalScope → LocalScope → Prop}
    (each : ∀ r, (scopes.filter (·.register = r)).Pairwise R) :
    scopes.Pairwise fun one two => one.register = two.register → R one two := by
  refine List.pairwise_iff_getElem.mpr ?_
  intro i j hi hj less same
  have pairs := List.pairwise_iff_getElem.mp (List.pairwise_filter.mp (each scopes[i].register)) i j hi hj less
  exact pairs (by simp) (by simp [same])

theorem debug_scopes_wellFormed (scan : LabelTable.scan item = .ok t)
    (done : DebugInfo.read c offset file t = .ok (info,labels)) :
    ∃ ops, DebugInfo.steps c offset = .ok ops ∧
      -- One scope for each step that gives a variable to a register, in the order of these steps.
      (∀ r, info.locals.filter (·.register = r) = DebugOp.scopesOf labels labels.stopLabel ops r) ∧
      info.lines.Pairwise (fun one two => labels.InTurn one.label two.label) ∧
      (∀ scope ∈ info.locals, labels.InTurn scope.start scope.stop) ∧
      info.locals.Pairwise (fun one two => one.register = two.register → labels.InTurn one.stop two.start) ∧
      (∀ line ∈ info.lines, labels.Anchors line.label) ∧
      (∀ scope ∈ info.locals, labels.Anchors scope.start ∧ labels.Anchors scope.stop) ∧
      labels.labelAt? labels.stop = some labels.stopLabel ∧ labels.Surveyed item := by
  obtain ⟨ops,line,u,steps,going,ran,scopes,lines,rfl⟩ := DebugInfo.read_ran done
  have surveyed := LabelTable.scan_surveyed scan
  have ordered : u.InOrder item := foldlM_keeps (fun _ _ _ _ before step => before.step step)
    (⟨surveyed,by simp,.nil⟩ : DebugState.InOrder item { line, file, labels := t }) ran
  have anchored : u.Anchored := foldlM_keeps (fun _ _ _ _ before step => before.step step)
    (⟨⟨_,surveyed.stop_named⟩,by simp,by simp,by simp [NatMap.get?]⟩ : DebugState.Anchored { line, file, labels := t }) ran
  have told := DebugState.run_told (DebugState.told_fresh line file t u.labels) ran List.foldlM_nil going
  have after := ordered.surveyed
  have reported : ∀ r, info.locals.filter (·.register = r) = DebugOp.scopesOf u.labels u.labels.stopLabel ops r := by
    intro r
    rw [scopes,told.scopes]
    exact DebugState.closeAll_ended u r
  refine ⟨ops,steps,reported,?_,?_,?_,?_,?_,after.stop_named,after⟩
  · rw [lines]
    exact ordered.ordered
  · intro scope member
    have mine : scope ∈ info.locals.filter (·.register = scope.register) := List.mem_filter.mpr ⟨member,by simp⟩
    rw [reported] at mine
    obtain ⟨k,-,found⟩ := List.mem_filterMap.mp mine
    exact told.scope_inTurn after found
  · refine pairwise_of_registers fun r => ?_
    rw [reported]
    exact told.scopes_inTurn after r
  · rw [lines]
    exact anchored.lines
  · rw [scopes,← DebugState.closeAll_labels u]
    exact anchored.closeAll.locals

def threeNops : CodeItem where
  registers := 2
  ins := 0
  outs := 0
  debugInfo := 1
  units := #[0x0000,0x0000,0x0000,0x000e]
  tries := []
  handlers := []

-- Register 0 holds one variable, then another, which is ended, restarted, and restarted while it is held. Register 1 holds
-- something without a name. The last line is past the end of the code.
def restartsProgram : Container where
  __ := Lowering.bare
  bytes := #[0x00,0x01,0x00,0x03,0x00,0x01,0x01,0x1d,0x03,0x00,0x03,0x01,0x01,0x01,0x05,0x00,0x06,0x00,0x1d,0x06,0x00,
    0x03,0x01,0x00,0x01,0x01,0x0a,0x1d,0x00]
  strings := #["n","I","m"]
  types := #[1]

-- The labels before and after: those of the start and the end, and one for each address that is named.
def startAndEnd : LabelTable := ⟨[(0,⟨⟨0⟩,false,none⟩),(4,⟨⟨1⟩,false,none⟩)],[0,1,2,3],4,2⟩

def startToEnd : LabelTable :=
  ⟨[(0,⟨⟨0⟩,false,none⟩),(1,⟨⟨2⟩,false,none⟩),(2,⟨⟨3⟩,false,none⟩),(3,⟨⟨4⟩,false,none⟩),(4,⟨⟨1⟩,false,none⟩)],[0,1,2,3],4,5⟩

theorem debug_scopes_wellFormed_restarts :
    ∃ info ops, LabelTable.scan threeNops = .ok startAndEnd ∧
      DebugInfo.read restartsProgram 1 none startAndEnd = .ok (info,startToEnd) ∧
      info.locals = [⟨0,⟨"n","I",none⟩,⟨0⟩,⟨2⟩⟩,⟨0,⟨"m","I",none⟩,⟨2⟩,⟨3⟩⟩,⟨0,⟨"m","I",none⟩,⟨3⟩,⟨4⟩⟩,⟨0,⟨"m","I",none⟩,⟨4⟩,⟨1⟩⟩] ∧
      DebugInfo.steps restartsProgram 1 = .ok ops ∧ ops.length = 11 ∧
      info.locals.filter (·.register = 0) = DebugOp.scopesOf startToEnd startToEnd.stopLabel ops 0 ∧
      info.locals.filter (·.register = 1) = DebugOp.scopesOf startToEnd startToEnd.stopLabel ops 1 ∧
      info.lines.Pairwise (fun one two => startToEnd.InTurn one.label two.label) ∧
      info.locals.Pairwise (fun one two => one.register = two.register → startToEnd.InTurn one.stop two.start) := by
  have scan : LabelTable.scan threeNops = .ok startAndEnd := rfl
  have done : DebugInfo.read restartsProgram 1 none startAndEnd =
      .ok (⟨[],[⟨0,⟨"n","I",none⟩,⟨0⟩,⟨2⟩⟩,⟨0,⟨"m","I",none⟩,⟨2⟩,⟨3⟩⟩,⟨0,⟨"m","I",none⟩,⟨3⟩,⟨4⟩⟩,⟨0,⟨"m","I",none⟩,⟨4⟩,⟨1⟩⟩],
        [⟨1,none,⟨2⟩⟩,⟨1,none,⟨4⟩⟩,⟨1,none,⟨1⟩⟩]⟩,startToEnd) := by cbv
  have length : (DebugInfo.steps restartsProgram 1).map List.length = .ok 11 := by cbv
  obtain ⟨ops,steps,scopes,ordered,-,apart,-⟩ := debug_scopes_wellFormed scan done
  rw [steps] at length
  exact ⟨_,ops,scan,done,rfl,steps,Except.ok.inj length,scopes 0,scopes 1,ordered,apart⟩

end Restack
