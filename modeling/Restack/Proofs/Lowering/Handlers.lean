import Mathlib
import Restack.Lowering.Plan
import Restack.Proofs.Body.Operands

namespace Restack.Lowering.Handlers

-- The handlers of a body: each has a label that is marked, is entered with an
-- exception of a type, and stands in the exception table.

variable {c : Container} {code : CodeItem} {labels : LabelTable} {h k : Handlers} {caught : NatMap Descriptor}
  {item : TryItem} {label : Label} {type found : Descriptor} {n : Nat} {targets : List Target} {t : Target}

theorem labelAt_some {a : Nat} (done : labelAt labels a = .ok label) : labels.labelAt? a = some label := by
  unfold labelAt at done
  split at done
  · rename_i known
    cases done
    exact known
  · simp at done

theorem labelAt_entry {a : Nat} (done : labelAt labels a = .ok label) :
    ∃ entry, labels.entry? a = some entry ∧ entry.label = label := Option.map_eq_some_iff.mp (labelAt_some done)

-- A target of a range: a marked label, and a type that is named or any exception.
structure Target.Known (c : Container) (code : CodeItem) (labels : LabelTable) (t : Target) : Prop where
  marked : labels.Targeted t.handler
  type : t.type = throwable ∨ t.type ∈ code.classOperands c

theorem pairs_mem {handler : CatchHandler} {all : List (Option String × Nat)} {pair : Option String × Nat}
    (done : pairs c handler = .ok all) (member : pair ∈ all) :
    (∃ entry ∈ handler.typed, ∃ text, c.type entry.type = .ok text ∧ pair = (some text,entry.address.toNat)) ∨
      (∃ address ∈ handler.catchAll.toList, pair = (none,address.toNat)) := by
  simp only [pairs,bind_eq_ok,pure_eq_ok] at done
  obtain ⟨typed,mapped,rfl⟩ := done
  rcases List.mem_append.mp member with named | any
  · obtain ⟨entry,present,here⟩ := mem_mapM mapped named
    simp only [bind_eq_ok,pure_eq_ok] at here
    obtain ⟨text,read,rfl⟩ := here
    exact .inl ⟨entry,present,text,read,rfl⟩
  · obtain ⟨address,present,rfl⟩ := List.mem_map.mp any
    exact .inr ⟨address,present,rfl⟩

theorem pairs_address {handler : CatchHandler} {all : List (Option String × Nat)} {pair : Option String × Nat}
    (done : pairs c handler = .ok all) (member : pair ∈ all) : pair.2 ∈ handler.addresses := by
  rcases pairs_mem done member with ⟨entry,named,text,-,rfl⟩ | ⟨address,any,rfl⟩
  · exact List.mem_append_left _ (List.mem_map.mpr ⟨entry,named,rfl⟩)
  · exact List.mem_append_right _ (List.mem_map.mpr ⟨address,any,rfl⟩)

theorem target_label {pair : Option String × Nat} (done : target labels pair = .ok t) :
    labelAt labels pair.2 = .ok t.handler := by
  simp only [target,bind_eq_ok] at done
  obtain ⟨label,placed,done⟩ := done
  split at done
  · cases done
    exact placed
  · simp only [bind_eq_ok,pure_eq_ok] at done
    obtain ⟨type,-,rfl⟩ := done
    exact placed

theorem target_known {handler : CatchHandler} {all : List (Option String × Nat)} {pair : Option String × Nat}
    (laid : labels.Laid code) (present : item ∈ code.tries) (mine : code.handlerFor item = some handler)
    (listed : pairs c handler = .ok all) (member : pair ∈ all) (done : target labels pair = .ok t) :
    t.Known c code labels := by
  have reached := pairs_mem listed member
  obtain ⟨entry,found,mark⟩ := laid.handlers item present handler mine _ (pairs_address listed member)
  have targeted : ∀ {label : Label}, labelAt labels pair.2 = .ok label → labels.Targeted label := by
    intro label placed
    obtain ⟨other,again,same⟩ := labelAt_entry placed
    rw [found] at again
    cases again
    exact ⟨_,entry,found,same,mark⟩
  simp only [target,bind_eq_ok] at done
  obtain ⟨label,placed,done⟩ := done
  split at done
  · cases done
    exact ⟨targeted placed,.inl rfl⟩
  · rename_i text named
    simp only [bind_eq_ok,pure_eq_ok] at done
    obtain ⟨type,read,rfl⟩ := done
    refine ⟨targeted placed,.inr ?_⟩
    rcases reached with ⟨entry,typed,spelled,pooled,rfl⟩ | ⟨address,-,rfl⟩
    · cases named
      refine List.mem_append_right _ (List.mem_flatMap.mpr ⟨handler,List.mem_filterMap.mpr ⟨item,present,mine⟩,?_⟩)
      refine List.mem_filterMap.mpr ⟨entry,typed,?_⟩
      simp [Container.typeReference,pooled,bind,Except.bind,read,Except.toOption]
    · cases named

-- Noting what a handler catches. A second type makes it any exception.

theorem noteCaught_from (known : (noteCaught caught label type).get? n = some found) :
    caught.get? n = some found ∨ (n = label.number ∧ (found = type ∨ found = throwable)) := by
  unfold noteCaught at known
  split at known
  · rw [NatMap.get?_insert] at known
    split at known
    · cases known
      exact .inr ⟨‹_›,.inl rfl⟩
    · exact .inl known
  · split at known
    · exact .inl known
    · rw [NatMap.get?_insert] at known
      split at known
      · cases known
        exact .inr ⟨‹_›,.inr rfl⟩
      · exact .inl known

theorem noteCaught_keeps (known : (caught.get? n).isSome) : ((noteCaught caught label type).get? n).isSome := by
  unfold noteCaught
  split
  · rw [NatMap.get?_insert]
    split <;> simp [known]
  · split
    · exact known
    · rw [NatMap.get?_insert]
      split <;> simp [known]

theorem noteCaught_here (caught : NatMap Descriptor) (label : Label) (type : Descriptor) :
    ((noteCaught caught label type).get? label.number).isSome := by
  unfold noteCaught
  split
  · simp [NatMap.get?_insert]
  · rename_i known there
    split
    · simp [there]
    · simp [NatMap.get?_insert]

theorem noteAll_from (known : (targets.foldl (fun caught t => noteCaught caught t.handler t.type) caught).get? n = some found) :
    caught.get? n = some found ∨ ∃ t ∈ targets, n = t.handler.number ∧ (found = t.type ∨ found = throwable) := by
  induction targets generalizing caught with
  | nil => exact .inl known
  | cons t targets ih =>
    rcases ih known with earlier | ⟨other,member,here⟩
    · rcases noteCaught_from earlier with before | here
      · exact .inl before
      · exact .inr ⟨t,List.mem_cons_self,here⟩
    · exact .inr ⟨other,List.mem_cons_of_mem _ member,here⟩

theorem noteAll_keeps (known : (caught.get? n).isSome) :
    ((targets.foldl (fun caught t => noteCaught caught t.handler t.type) caught).get? n).isSome := by
  induction targets generalizing caught with
  | nil => exact known
  | cons t targets ih => exact ih (noteCaught_keeps known)

theorem noteAll_here (member : t ∈ targets) :
    ((targets.foldl (fun caught t => noteCaught caught t.handler t.type) caught).get? t.handler.number).isSome := by
  induction targets generalizing caught with
  | nil => cases member
  | cons first targets ih =>
    rcases List.mem_cons.mp member with rfl | later
    · rw [List.foldl_cons]
      exact noteAll_keeps (noteCaught_here caught t.handler t.type)
    · exact ih later

structure Registered (c : Container) (code : CodeItem) (labels : LabelTable) (h : Handlers) : Prop where
  blocks : ∀ block ∈ h.blocks, (h.caught.get? block.handler.number).isSome
  caught : ∀ n type, h.caught.get? n = some type → labels.Targeted ⟨n⟩ ∧ (∃ block ∈ h.blocks, block.handler = ⟨n⟩) ∧
    (type = throwable ∨ type ∈ code.classOperands c)

theorem Registered.add (laid : labels.Laid code) (before : h.Registered c code labels) (present : item ∈ code.tries)
    (done : add c code labels h item = .ok k) : k.Registered c code labels := by
  unfold Handlers.add at done
  split at done
  · simp at done
  · rename_i handler mine
    simp only [bind_eq_ok,pure_eq_ok] at done
    obtain ⟨past,-,start,-,stop,-,all,listed,targets,mapped,rfl⟩ := done
    have known : ∀ t ∈ targets, t.Known c code labels := by
      intro t member
      obtain ⟨pair,paired,here⟩ := mem_mapM mapped member
      exact target_known laid present mine listed paired here
    constructor
    · intro block member
      rcases List.mem_append.mp member with old | new
      · exact noteAll_keeps (before.blocks block old)
      · obtain ⟨t,targeted,rfl⟩ := List.mem_map.mp new
        exact noteAll_here targeted
    · intro n type found
      rcases noteAll_from found with earlier | ⟨t,targeted,rfl,named⟩
      · obtain ⟨marked,⟨block,member,handles⟩,typed⟩ := before.caught n type earlier
        exact ⟨marked,⟨block,List.mem_append_left _ member,handles⟩,typed⟩
      · refine ⟨(known t targeted).marked,⟨_,List.mem_append_right _ (List.mem_map.mpr ⟨t,targeted,rfl⟩),rfl⟩,?_⟩
        rcases named with rfl | rfl
        · exact (known t targeted).type
        · exact .inl rfl

theorem ofCode_registered (laid : labels.Laid code) (done : ofCode c code labels = .ok h) :
    h.Registered c code labels := by
  refine foldlM_keeps (P := fun h => h.Registered c code labels) ?_ ?_ done
  · intro h item k present before step
    exact before.add laid present step
  · exact ⟨by simp,by simp [NatMap.get?]⟩

end Restack.Lowering.Handlers
