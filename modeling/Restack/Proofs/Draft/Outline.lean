import Mathlib
import Restack.Proofs.Draft.Settles

namespace Restack

-- An instruction without the type of its operand: the form in which lowering
-- emits it as a placeholder. Retyping changes the type alone, so the outline of
-- a draft, which forgets types, only ever grows at its end.

def Kind.untyped : Kind → Kind
  | .int | .float | .reference => .int
  | .long | .double => .long

def Constant.untyped : Constant → Constant
  | .float bits => .int bits.toInt32
  | .double bits => .long bits.toInt64
  | .null => .int 0
  | value => value

def Condition.untyped : Condition → Condition
  | .null => .zero .eq
  | .nonNull => .zero .ne
  | .sameReference => .ints .eq
  | .otherReference => .ints .ne
  | condition => condition

@[simp] theorem Constant.untyped_int (value : Int32) : (Constant.int value).untyped = .int value := rfl

@[simp] theorem Constant.untyped_long (value : Int64) : (Constant.long value).untyped = .long value := rfl

@[simp] theorem Condition.untyped_always : Condition.always.untyped = .always := rfl

@[simp] theorem Condition.untyped_zero (c : Comparison) : (Condition.zero c).untyped = .zero c := rfl

@[simp] theorem Condition.untyped_ints (c : Comparison) : (Condition.ints c).untyped = .ints c := rfl

def Insn.untyped : Insn → Insn
  | .load kind slot => .load kind.untyped slot
  | .store kind slot => .store kind.untyped slot
  | .const value => .const value.untyped
  | .jump condition target => .jump condition.untyped target
  | i => i

def Event.untyped : Event → Event
  | .insn i => .insn i.untyped
  | .label l => .label l

theorem Kind.untyped_of_width {k l : Kind} (same : k.isWide = l.isWide) : k.untyped = l.untyped := by
  cases k <;> cases l <;> first | rfl | cases same

theorem Constant.retype_untyped {value result : Constant} {kind : Kind} (done : value.retype? kind = some result) :
    result.untyped = value.untyped := by
  cases value <;> cases kind <;> simp only [retype?,reduceCtorEq] at done
  all_goals first
    | (cases done; rfl)
    | (split at done
       · rename_i zero
         cases done
         subst zero
         rfl
       · cases done)

theorem Condition.retype_untyped {condition result : Condition} {kind : Kind}
    (done : condition.retype? kind = some result) : result.untyped = condition.untyped := by
  cases kind
  case int =>
    cases done
    rfl
  case reference =>
    cases condition with
    | zero c => cases c <;> cases done <;> rfl
    | ints c => cases c <;> cases done <;> rfl
    | _ => cases done
  all_goals cases condition <;> cases done

theorem Insn.retypeSlot_eq {rebuilt : Kind → Insn} {held kind : Kind} {type : Descriptor} {j : Insn}
    (done : retypeSlot rebuilt held kind type = .ok j) : held.isWide = kind.isWide ∧ j = rebuilt kind := by
  unfold retypeSlot at done
  split at done
  · rename_i same
    cases done
    exact ⟨same,rfl⟩
  · simp at done

theorem Insn.retype_untyped {i j : Insn} {type : Descriptor} (done : i.retype type = .ok j) :
    j.untyped = i.untyped := by
  unfold retype at done
  split at done
  · simp at done
  · rename_i kind _
    split at done
    · obtain ⟨same,rfl⟩ := retypeSlot_eq done
      simp [Insn.untyped,Kind.untyped_of_width same]
    · obtain ⟨same,rfl⟩ := retypeSlot_eq done
      simp [Insn.untyped,Kind.untyped_of_width same]
    · split at done
      · rename_i retyped
        cases done
        simp [Insn.untyped,Constant.retype_untyped retyped]
      · simp at done
    · split at done
      · rename_i retyped
        cases done
        simp [Insn.untyped,Condition.retype_untyped retyped]
      · simp at done
    · simp at done

namespace Draft

variable {P : Descriptor → Prop} {d e m : Draft} {a b g h : Group} {type : Descriptor}

def outline (d : Draft) : List Event := d.events.toList.map Event.untyped

@[simp] theorem outline_push (d : Draft) (event : Event) : (d.push event).outline = d.outline ++ [event.untyped] := by
  simp [outline]

@[simp] theorem outline_pushSite (d : Draft) (g : Group) (i : Insn) :
    (d.pushSite g i).outline = d.outline ++ [.insn i.untyped] := by
  simp [outline,pushSite,Event.untyped]

@[simp] theorem outline_newGroup (d : Draft) (wide : Bool) : (d.newGroup wide).2.outline = d.outline := rfl

@[simp] theorem outline_length (d : Draft) : d.outline.length = d.events.size := by simp [outline]

theorem outline_retypeSite (done : retypeSite type d site = .ok e) : e.outline = d.outline := by
  obtain ⟨i,j,found,retyped,written⟩ := retypeSite_events done
  unfold outline
  rw [written,Array.toList_setIfInBounds,List.map_set]
  apply List.ext_getElem?
  intro k
  rw [List.getElem?_set]
  split
  · rename_i here
    subst here
    have old : d.events.toList[site]? = some (.insn i) := by simpa using found
    simp only [List.getElem?_map,old,Option.map_some,Event.untyped,Insn.retype_untyped retyped]
    rw [if_pos]
    simpa using (Array.getElem?_eq_some_iff.mp found).1
  · rfl

theorem outline_resolve (isOpen : d.resolution? g = none) (done : d.resolve g type = .ok e) :
    e.outline = d.outline := by
  refine foldlM_keeps (P := fun m => m.outline = d.outline) ?_ ?_ (resolve_sites isOpen done)
  · intro m site n _ same step
    rw [outline_retypeSite step,same]
  · rfl

theorem Settles.outline (path : Settles P d e) : e.outline = d.outline := by
  induction path with
  | refl => rfl
  | unite _ _ _ _ _ ih => simpa [Draft.outline] using ih
  | resolve _ _ isOpen _ done ih => rw [outline_resolve isOpen done,ih]

end Draft

end Restack
