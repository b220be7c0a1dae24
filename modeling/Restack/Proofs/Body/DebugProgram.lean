import Mathlib
import Restack.Proofs.Body.Survey

namespace Restack

-- Labels that debug information names. It asks for labels at any address, but gets them at
-- instructions and at the end of the code only, where labels are placed.

namespace LabelTable

variable {t : LabelTable} {a b : Nat} {label : Label}

def Anchors (t : LabelTable) (label : Label) : Prop := ∃ a, (a = t.stop ∨ a ∈ t.starts) ∧ t.labelAt? a = some label

theorem labelAt_ensure (known : t.labelAt? b = some label) (a : Nat) : labelAt? (t.ensure a) b = some label := by
  obtain ⟨entry,found,named⟩ := Option.map_eq_some_iff.mp known
  simp [labelAt?,entry_ensure_of_some found,named]

theorem Anchors.ensure (anchors : t.Anchors label) (a : Nat) : (t.ensure a).Anchors label := by
  obtain ⟨b,stands,known⟩ := anchors
  exact ⟨b,by simpa using stands,labelAt_ensure known a⟩

theorem obtain_label (t : LabelTable) (a : Nat) : labelAt? (t.ensure a) a = some (t.obtain a).1 := by
  unfold ensure obtain
  cases known : t.entry? a with
  | some entry => simp [labelAt?,known]
  | none => simp [labelAt?, entry?,fresh,NatMap.get?_insert]

theorem Surveyed.stop_named {code : CodeItem} (surveyed : t.Surveyed code) : t.labelAt? t.stop = some t.stopLabel := by
  obtain ⟨entry,last⟩ := surveyed.laid.last
  simp [stopLabel,labelAt?,last]

end LabelTable

namespace DebugState

open LabelTable (Anchors)

variable {s t : DebugState} {register : Nat} {label stop : Label} {scope : Option (Variable × Label)} {op : DebugOp}
  {c : Container} {code : CodeItem} {labels : LabelTable}

theorem here_anchors (s : DebugState) : Anchors s.here.2.labels s.here.1 := by
  refine ⟨placed s.labels s.address,?_,LabelTable.obtain_label s.labels _⟩
  change _ = (s.labels.ensure _).stop ∨ _ ∈ (s.labels.ensure _).starts
  simpa [LabelTable.Spot] using placed_stands s.labels s.address

-- All labels that a program has named so far stand at an instruction or at the end.
structure Anchored (s : DebugState) : Prop where
  ends : ∃ label, s.labels.labelAt? s.labels.stop = some label
  lines : ∀ line ∈ s.lines, Anchors s.labels line.label
  locals : ∀ scope ∈ s.locals, Anchors s.labels scope.start ∧ Anchors s.labels scope.stop
  held : ∀ register var label, s.held.get? register = some (some (var,label)) → Anchors s.labels label

theorem Anchored.here (anchored : s.Anchored) : s.here.2.Anchored where
  ends := by
    obtain ⟨label,known⟩ := anchored.ends
    refine ⟨label,?_⟩
    change (s.labels.ensure _).labelAt? (s.labels.ensure _).stop = some label
    rw [LabelTable.ensure_stop]
    exact LabelTable.labelAt_ensure known _
  lines := fun line member => (anchored.lines line member).ensure _
  locals := fun scope member => ⟨(anchored.locals scope member).1.ensure _,(anchored.locals scope member).2.ensure _⟩
  held := fun register var label known => (anchored.held register var label known).ensure _

theorem Anchored.stopLabel (anchored : s.Anchored) : Anchors s.labels s.labels.stopLabel := by
  obtain ⟨label,known⟩ := anchored.ends
  exact ⟨s.labels.stop,.inl rfl,by simp [LabelTable.stopLabel,known]⟩

theorem Anchored.closeHeld (anchored : s.Anchored) (register : Nat) (stands : Anchors s.labels stop) :
    (s.closeHeld register stop).Anchored := by
  have erased : ∀ other var label, (s.held.erase register).get? other = some (some (var,label)) → Anchors s.labels label := by
    intro other var label known
    rw [NatMap.get?_erase] at known
    split at known
    · cases known
    · exact anchored.held other var label known
  unfold DebugState.closeHeld
  split
  · exact anchored
  · rename_i scope found
    unfold close
    split
    · exact ⟨anchored.ends,anchored.lines,anchored.locals,erased⟩
    · rename_i var start
      refine ⟨anchored.ends,anchored.lines,?_,erased⟩
      intro other member
      rcases List.mem_append.mp member with old | new
      · exact anchored.locals other old
      · obtain rfl := List.mem_singleton.mp new
        exact ⟨anchored.held register var start found,stands⟩

theorem Anchored.hold (anchored : s.Anchored) (register : Nat)
    (stands : ∀ var label, scope = some (var,label) → Anchors s.labels label) : (s.hold register scope).Anchored := by
  refine ⟨anchored.ends,anchored.lines,anchored.locals,?_⟩
  intro other var label known
  simp only [DebugState.hold,NatMap.get?_insert] at known
  split at known
  · exact stands var label (Option.some.inj known)
  · exact anchored.held other var label known

theorem Anchored.closeAll (anchored : s.Anchored) : s.closeAll.Anchored := by
  have stands := anchored.stopLabel
  unfold DebugState.closeAll
  generalize s.labels.stopLabel = stop at stands
  generalize s.held = pairs
  induction pairs generalizing s with
  | nil => exact anchored
  | cons pair rest ih => exact ih (anchored.closeHeld pair.1 stands) (by rwa [closeHeld_labels])

theorem Anchored.step (anchored : s.Anchored) (done : s.step op = .ok t) : t.Anchored := by
  have started := here_anchors s
  cases op with
  | endSequence =>
    cases done
    exact anchored.closeAll
  | advanceAddress delta =>
    simp only [DebugState.step] at done
    split at done
    · simp at done
    · cases done
      exact ⟨anchored.ends,anchored.lines,anchored.locals,anchored.held⟩
  | advanceLine delta =>
    cases done
    exact ⟨anchored.ends,anchored.lines,anchored.locals,anchored.held⟩
  | startLocal register var =>
    cases done
    refine (anchored.here.closeHeld register started).hold register ?_
    intro other label known
    obtain ⟨_,-,same⟩ := Option.map_eq_some_iff.mp known
    cases same
    rwa [closeHeld_labels]
  | endLocal register =>
    simp only [DebugState.step,endLocal] at done
    split at done
    · cases done
      exact anchored.here.closeHeld register started
    · simp at done
  | restartLocal register =>
    cases done
    unfold restartLocal
    split
    · exact anchored
    · refine (anchored.here.closeHeld register started).hold register ?_
      rintro other label ⟨⟩
      rwa [closeHeld_labels]
  | mark =>
    cases done
    exact anchored
  | setFile file =>
    cases done
    exact ⟨anchored.ends,anchored.lines,anchored.locals,anchored.held⟩
  | special opcode =>
    simp only [DebugState.step,special,guard_eq_ok,pure_eq_ok] at done
    obtain ⟨-,-,rfl⟩ := done
    have moved : DebugState.Anchored { s with address := s.address + DebugOp.addressStep opcode, line := s.line + DebugOp.lineStep opcode } :=
      ⟨anchored.ends,anchored.lines,anchored.locals,anchored.held⟩
    refine ⟨moved.here.ends,?_,moved.here.locals,moved.here.held⟩
    intro line member
    rcases List.mem_append.mp member with old | new
    · exact moved.here.lines line old
    · obtain rfl := List.mem_singleton.mp new
      exact here_anchors _

end DebugState

theorem debugInfo_anchored {c : Container} {item : CodeItem} {file : Option String} {settings : Settings}
    {t labels : LabelTable} {info : DebugInfo} (surveyed : t.Surveyed item)
    (done : Code.debugInfo c item file settings t = .ok (some info,labels)) :
    (∀ line ∈ info.lines, labels.Anchors line.label) ∧
      ∀ scope ∈ info.locals, labels.Anchors scope.start ∧ labels.Anchors scope.stop := by
  rcases LabelTable.debugInfo_cases done with ⟨none,-⟩ | ⟨line,_,_,_,names,s,ran,found,rfl⟩
  · cases none
  · cases found
    have fresh : DebugState.Anchored { line, file, labels := t } :=
      ⟨⟨_,surveyed.stop_named⟩,by simp,by simp,by simp [NatMap.get?]⟩
    have anchored := DebugState.run_keeps (fun _ _ _ before stepped => before.step stepped) fresh ran
    exact ⟨anchored.lines,anchored.locals⟩

end Restack
