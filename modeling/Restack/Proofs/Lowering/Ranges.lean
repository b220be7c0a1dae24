import Mathlib
import Restack.Proofs.Lowering.Handlers

namespace Restack

-- Ranges are kept twice: by labels in the exception table, and by addresses, where the later
-- one counts. The two agree on bodies whose ranges do not compete.

def TryItem.past (t : TryItem) : Nat := t.start.toNat + t.count.toNat

def TryItem.Covers (t : TryItem) (address : Nat) : Prop := t.start.toNat ≤ address ∧ address < t.past

theorem TryItem.stop_past {t : TryItem} {past : Nat} (done : t.stop = .ok past) : past = t.past := by
  unfold TryItem.stop at done
  split at done
  · exact (Except.ok.inj done).symm
  · cases done

-- Ranges that overlap have the same handlers, and handlers stand below their ranges.
structure CodeItem.Orderly (code : CodeItem) : Prop where
  agree : ∀ one ∈ code.tries, ∀ two ∈ code.tries, ∀ a, one.Covers a → two.Covers a → one.handler = two.handler
  below : ∀ item ∈ code.tries, ∀ handler, code.handlerFor item = some handler → ∀ a ∈ handler.addresses, item.past ≤ a

namespace Lowering.Handlers

variable {c : Container} {code : CodeItem} {labels : LabelTable} {h k : Handlers} {item other : TryItem} {label : Label}
  {targets found : List Target} {address : Nat}

-- Where the exceptions of a range go. This depends on the handler of the range only.
def Reach (c : Container) (code : CodeItem) (labels : LabelTable) (item : TryItem) (targets : List Target) : Prop :=
  ∃ handler all, code.handlerFor item = some handler ∧ pairs c handler = .ok all ∧ all.mapM (target labels) = .ok targets

theorem Reach.unique (one : Reach c code labels item targets) (two : Reach c code labels other found)
    (same : item.handler = other.handler) : targets = found := by
  obtain ⟨handler,all,mine,listed,mapped⟩ := one
  obtain ⟨_,_,yours,again,other⟩ := two
  unfold CodeItem.handlerFor at mine yours
  rw [same,yours] at mine
  cases mine
  rw [listed] at again
  cases again
  rw [mapped] at other
  exact Except.ok.inj other

theorem Reach.placed (reach : Reach c code labels item targets) (member : label ∈ targets.map Target.handler) :
    ∃ handler, code.handlerFor item = some handler ∧ ∃ a ∈ handler.addresses, labels.labelAt? a = some label := by
  obtain ⟨handler,all,mine,listed,mapped⟩ := reach
  obtain ⟨t,present,rfl⟩ := List.mem_map.mp member
  obtain ⟨pair,paired,done⟩ := mem_mapM mapped present
  exact ⟨handler,mine,pair.2,pairs_address listed paired,labelAt_some (target_label done)⟩

structure Ranged (c : Container) (code : CodeItem) (labels : LabelTable) (h : Handlers) : Prop where
  covered : ∀ range ∈ h.covered, ∃ item ∈ code.tries, ∃ targets, Reach c code labels item targets ∧
    range = ⟨item.start.toNat,item.past,targets.map Target.handler⟩
  blocks : ∀ block ∈ h.blocks, ∃ item ∈ code.tries, ∃ targets, Reach c code labels item targets ∧
    block.handler ∈ targets.map Target.handler ∧ labels.labelAt? item.start.toNat = some block.start ∧
    labels.labelAt? (labels.snap item.past) = some block.stop ∧
    ∀ a, item.Covers a → ∃ range ∈ h.covered, range.start ≤ a ∧ a < range.stop

theorem Ranged.add (before : h.Ranged c code labels) (present : item ∈ code.tries)
    (done : add c code labels h item = .ok k) : k.Ranged c code labels := by
  unfold Handlers.add at done
  split at done
  · simp at done
  · rename_i handler mine
    simp only [bind_eq_ok,pure_eq_ok] at done
    obtain ⟨past,stops,start,first,stop,last,all,listed,targets,mapped,rfl⟩ := done
    obtain rfl := TryItem.stop_past stops
    have reach : Reach c code labels item targets := ⟨handler,all,mine,listed,mapped⟩
    constructor
    · intro range member
      dsimp only at member
      split at member
      · rcases List.mem_cons.mp member with rfl | old
        · exact ⟨item,present,targets,reach,rfl⟩
        · exact before.covered range old
      · exact before.covered range member
    · intro block member
      rcases List.mem_append.mp member with old | new
      · obtain ⟨earlier,among,others,reached,handles,opens,closes,kept⟩ := before.blocks block old
        refine ⟨earlier,among,others,reached,handles,opens,closes,?_⟩
        intro a covers
        obtain ⟨range,listed,covering⟩ := kept a covers
        refine ⟨range,?_,covering⟩
        dsimp only
        split
        · exact List.mem_cons_of_mem _ listed
        · exact listed
      · obtain ⟨t,targeted,rfl⟩ := List.mem_map.mp new
        refine ⟨item,present,targets,reach,List.mem_map.mpr ⟨t,targeted,rfl⟩,labelAt_some first,labelAt_some last,?_⟩
        intro a covers
        dsimp only
        rw [if_pos (Nat.lt_of_le_of_lt covers.1 covers.2)]
        exact ⟨_,List.mem_cons_self,covers⟩

theorem ofCode_ranged (done : ofCode c code labels = .ok h) : h.Ranged c code labels := by
  refine foldlM_keeps (P := fun h => h.Ranged c code labels) ?_ ?_ done
  · intro h item k present before step
    exact before.add present step
  · exact ⟨by simp,by simp⟩

theorem covering_found {range : Covered} (member : range ∈ h.covered) (low : range.start ≤ address) (high : address < range.stop) :
    ∃ first ∈ h.covered, first.start ≤ address ∧ address < first.stop ∧ h.covering address = first.handlers := by
  unfold covering
  split
  · rename_i first found
    have covers := List.find?_some found
    simp only [Bool.and_eq_true,decide_eq_true_eq] at covers
    exact ⟨first,List.mem_of_find?_eq_some found,covers.1,covers.2,rfl⟩
  · rename_i none
    have apart := List.find?_eq_none.mp none range member
    simp [low,high] at apart

theorem covering_range (heard : label ∈ h.covering address) :
    ∃ range ∈ h.covered, range.start ≤ address ∧ address < range.stop ∧ label ∈ range.handlers := by
  unfold covering at heard
  split at heard
  · rename_i range found
    have covers := List.find?_some found
    simp only [Bool.and_eq_true,decide_eq_true_eq] at covers
    exact ⟨range,List.mem_of_find?_eq_some found,covers.1,covers.2,heard⟩
  · cases heard

theorem Ranged.hears (ranged : h.Ranged c code labels) (orderly : code.Orderly) (present : item ∈ code.tries)
    (reach : Reach c code labels item targets) (covers : item.Covers address)
    (kept : ∃ range ∈ h.covered, range.start ≤ address ∧ address < range.stop) :
    h.covering address = targets.map Target.handler := by
  obtain ⟨range,member,low,high⟩ := kept
  obtain ⟨first,listed,low,high,same⟩ := covering_found member low high
  obtain ⟨other,among,found,reached,rfl⟩ := ranged.covered first listed
  rw [same,reach.unique reached (orderly.agree item present other among address covers ⟨low,high⟩)]

theorem Ranged.heard_below (ranged : h.Ranged c code labels) (orderly : code.Orderly) (heard : label ∈ h.covering address) :
    ∃ a, labels.labelAt? a = some label ∧ address < a := by
  obtain ⟨range,member,-,high,handles⟩ := covering_range heard
  obtain ⟨item,present,targets,reach,rfl⟩ := ranged.covered range member
  obtain ⟨handler,mine,a,listed,named⟩ := reach.placed handles
  exact ⟨a,named,Nat.lt_of_lt_of_le high (orderly.below item present handler mine a listed)⟩

end Lowering.Handlers

end Restack
