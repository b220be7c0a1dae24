import Mathlib
import Restack.Proofs.Body.DebugProgram

namespace Restack

-- A debug program never goes back, so the lines it gives stand in the order of their addresses, also where it
-- names addresses that are no instructions.

namespace LabelTable.Surveyed

open DebugState (placed placed_stands)

variable {t : LabelTable} {code : CodeItem} {a b : Nat} (surveyed : t.Surveyed code)
include surveyed

theorem stands_le (stands : b = t.stop ∨ b ∈ t.starts) : b ≤ t.stop := by
  rcases stands with last | start
  · exact Nat.le_of_eq last
  · rw [surveyed.starts] at start
    obtain ⟨e,member⟩ := mem_starts.mp start
    have bounds := ((go_tiles surveyed.fills).bounds member).2
    rw [surveyed.laid.stop]
    exact Nat.le_trans (Nat.le_add_right _ _) bounds

theorem placed_least (stands : b = t.stop ∨ b ∈ t.starts) (above : a ≤ b) : placed t a ≤ b := by
  have inside := surveyed.stands_le stands
  unfold placed
  split
  · omega
  · split
    · rcases stands with rfl | start
      · exact surveyed.stands_le (t.snap_stands a)
      · rw [surveyed.starts] at start
        obtain ⟨e,member⟩ := mem_starts.mp start
        exact surveyed.snap_le member above
    · exact above

omit surveyed in
theorem le_placed (inside : a ≤ t.stop) : a ≤ placed t a := by
  unfold placed
  split
  · exact inside
  · split
    · unfold snap
      cases found : t.starts.find? (a ≤ ·) with
      | none => exact inside
      | some b => simpa using List.find?_some found
    · exact Nat.le_refl _

theorem placed_mono (le : a ≤ b) : placed t a ≤ placed t b := by
  by_cases inside : b ≤ t.stop
  · exact surveyed.placed_least (placed_stands t b) (Nat.le_trans le (le_placed inside))
  · have clamped : placed t b = t.stop := if_pos (Nat.lt_of_not_le inside)
    rw [clamped]
    exact surveyed.stands_le (placed_stands t a)

end LabelTable.Surveyed

def DebugOp.advance : DebugOp → Nat
  | .advanceAddress delta => delta
  | .special opcode => addressStep opcode
  | _ => 0

namespace DebugState

variable {s t : DebugState} {op : DebugOp} {c : Container} {code : CodeItem} {label : Label} {a : Nat}

theorem closeHeld_lines (s : DebugState) (register : Nat) (stop : Label) :
    (s.closeHeld register stop).lines = s.lines ∧ (s.closeHeld register stop).address = s.address := by
  unfold closeHeld
  split
  · exact ⟨rfl,rfl⟩
  · unfold close
    split <;> exact ⟨rfl,rfl⟩

theorem closeAll_lines (s : DebugState) : s.closeAll.lines = s.lines ∧ s.closeAll.address = s.address := by
  unfold closeAll
  generalize s.labels.stopLabel = stop
  induction s.held generalizing s with
  | nil => exact ⟨rfl,rfl⟩
  | cons pair rest ih =>
    rw [List.foldl_cons]
    obtain ⟨lines,address⟩ := closeHeld_lines s pair.1 stop
    obtain ⟨others,still⟩ := ih (s.closeHeld pair.1 stop)
    exact ⟨others.trans lines,still.trans address⟩

theorem step_lines (done : s.step op = .ok t) : t.address = s.address + op.advance ∧
    (t.lines = s.lines ∨ ∃ line, t.lines = s.lines ++ [line] ∧
      t.labels.labelAt? (placed s.labels t.address) = some line.label) := by
  cases op with
  | endSequence =>
    cases done
    obtain ⟨lines,address⟩ := closeAll_lines s
    exact ⟨address,.inl lines⟩
  | advanceAddress delta =>
    simp only [step] at done
    split at done
    · simp at done
    · cases done
      exact ⟨rfl,.inl rfl⟩
  | advanceLine delta | mark | setFile file =>
    cases done
    exact ⟨rfl,.inl rfl⟩
  | startLocal register var =>
    cases done
    obtain ⟨lines,address⟩ := closeHeld_lines s.here.2 register s.here.1
    exact ⟨address,.inl lines⟩
  | endLocal register =>
    simp only [step,endLocal] at done
    split at done
    · cases done
      obtain ⟨lines,address⟩ := closeHeld_lines s.here.2 register s.here.1
      exact ⟨address,.inl lines⟩
    · simp at done
  | restartLocal register =>
    cases done
    unfold restartLocal
    split
    · exact ⟨rfl,.inl rfl⟩
    · obtain ⟨lines,address⟩ := closeHeld_lines s.here.2 register s.here.1
      exact ⟨address,.inl lines⟩
  | special opcode =>
    simp only [step,special,guard_eq_ok,pure_eq_ok] at done
    obtain ⟨-,-,rfl⟩ := done
    exact ⟨rfl,.inr ⟨_,rfl,LabelTable.obtain_label s.labels _⟩⟩

structure InOrder (code : CodeItem) (s : DebugState) : Prop where
  surveyed : s.labels.Surveyed code
  passed : ∀ line ∈ s.lines, ∃ a, a ≤ placed s.labels s.address ∧ s.labels.labelAt? a = some line.label
  ordered : s.lines.Pairwise fun one two => ∃ a b, a ≤ b ∧ s.labels.labelAt? a = some one.label ∧
    s.labels.labelAt? b = some two.label

theorem step_labelAt (done : s.step op = .ok t) (known : s.labels.labelAt? a = some label) :
    t.labels.labelAt? a = some label :=
  step_labels (Q := fun labels => labels.labelAt? a = some label) (fun _ b _ known => LabelTable.labelAt_ensure known b) known done

theorem placed_congr {one two : LabelTable} (starts : one.starts = two.starts) (stop : one.stop = two.stop) (a : Nat) :
    placed one a = placed two a := by
  obtain ⟨_,_,_,_⟩ := one
  obtain ⟨_,_,_,_⟩ := two
  cases starts
  cases stop
  rfl

theorem step_placed (done : s.step op = .ok t) (a : Nat) : placed t.labels a = placed s.labels a := by
  have same : t.labels.starts = s.labels.starts ∧ t.labels.stop = s.labels.stop :=
    step_labels (Q := fun labels => labels.starts = s.labels.starts ∧ labels.stop = s.labels.stop)
      (fun labels b _ same => by simpa using same) ⟨rfl,rfl⟩ done
  exact placed_congr same.1 same.2 a

theorem InOrder.step (before : s.InOrder code) (done : s.step op = .ok t) : t.InOrder code := by
  obtain ⟨moved,lines⟩ := step_lines done
  have further : s.address ≤ t.address := moved ▸ Nat.le_add_right _ _
  have surveyed : t.labels.Surveyed code :=
    step_labels (Q := fun labels => labels.Surveyed code) (fun _ b spot surveyed => surveyed.ensure (surveyed.laid.distinct.spots b spot))
      before.surveyed done
  -- The lines so far, seen from where the program is now.
  have passed : ∀ line ∈ s.lines, ∃ a, a ≤ placed s.labels t.address ∧ t.labels.labelAt? a = some line.label := by
    intro line member
    obtain ⟨a,small,known⟩ := before.passed line member
    exact ⟨a,Nat.le_trans small (before.surveyed.placed_mono further),step_labelAt done known⟩
  have ordered : s.lines.Pairwise fun one two => ∃ a b, a ≤ b ∧ t.labels.labelAt? a = some one.label ∧
      t.labels.labelAt? b = some two.label := by
    refine before.ordered.imp ?_
    rintro one two ⟨a,b,le,first,second⟩
    exact ⟨a,b,le,step_labelAt done first,step_labelAt done second⟩
  rcases lines with same | ⟨line,grown,here⟩
  · refine ⟨surveyed,?_,?_⟩
    · rw [same,step_placed done]
      exact passed
    · rw [same]
      exact ordered
  · refine ⟨surveyed,?_,?_⟩
    · rw [grown,step_placed done]
      intro other member
      rcases List.mem_append.mp member with old | new
      · exact passed other old
      · obtain rfl := List.mem_singleton.mp new
        exact ⟨_,Nat.le_refl _,here⟩
    · rw [grown]
      refine List.pairwise_append.mpr ⟨ordered,List.pairwise_singleton _ _,?_⟩
      intro one member two new
      obtain rfl := List.mem_singleton.mp new
      obtain ⟨a,small,known⟩ := passed one member
      exact ⟨a,_,small,known,here⟩

end DebugState

theorem debugInfo_ordered {c : Container} {item : CodeItem} {file : Option String} {settings : Settings}
    {t labels : LabelTable} {info : DebugInfo} (surveyed : t.Surveyed item)
    (done : Code.debugInfo c item file settings t = .ok (some info,labels)) :
    info.lines.Pairwise fun one two => ∃ a b, a ≤ b ∧ labels.labelAt? a = some one.label ∧ labels.labelAt? b = some two.label := by
  rcases LabelTable.debugInfo_cases done with ⟨none,-⟩ | ⟨line,_,_,_,names,s,ran,found,rfl⟩
  · cases none
  · cases found
    have fresh : DebugState.InOrder item { line, file, labels := t } := ⟨surveyed,by simp,.nil⟩
    exact (DebugState.run_keeps (fun _ _ _ before stepped => before.step stepped) fresh ran).ordered

end Restack
