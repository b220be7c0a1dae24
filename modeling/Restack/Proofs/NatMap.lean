import Mathlib
import Restack.NatMap

namespace Restack.NatMap

-- Lookups after each change of a map.

variable {α : Type}

theorem get?_cons (key n : Nat) (value : α) (m : NatMap α) :
    get? ((key,value) :: m) n = if n = key then some value else get? m n := by
  unfold get?
  rw [List.lookup_cons]
  by_cases same : n = key
  · simp [same]
  · have differs : (n == key) = false := beq_eq_false_iff_ne.mpr same
    simp [same,differs]

theorem get?_insert (key n : Nat) (value : α) (m : NatMap α) :
    get? (insert key value m) n = if n = key then some value else get? m n := by
  induction m with
  | nil => exact get?_cons key n value []
  | cons pair rest ih =>
    obtain ⟨k,v⟩ := pair
    unfold insert
    split
    · rw [get?_cons]
    · split
      · rename_i same
        subst same
        rw [get?_cons,get?_cons]
        split <;> rfl
      · rename_i differs
        rw [get?_cons,get?_cons,ih]
        by_cases here : n = k
        · simp [here,Ne.symm differs]
        · simp [here]

theorem insert_last {key : Nat} {value : α} {m : NatMap α} (below : ∀ pair ∈ m, pair.1 < key) :
    insert key value m = m ++ [(key,value)] := by
  induction m with
  | nil => rfl
  | cons pair rest ih =>
    obtain ⟨less,others⟩ := List.forall_mem_cons.mp below
    rw [insert,if_neg (by omega),if_neg (by omega),ih others,List.cons_append]

theorem get?_adjust (key n : Nat) (f : α → α) (m : NatMap α) :
    get? (adjust key f m) n = if n = key then (get? m n).map f else get? m n := by
  induction m with
  | nil => simp [adjust,get?]
  | cons pair rest ih =>
    obtain ⟨k,v⟩ := pair
    have step : adjust key f ((k,v) :: rest) = (k,if k = key then f v else v) :: adjust key f rest := by
      simp only [adjust,List.map_cons]
      split <;> rfl
    rw [step,get?_cons,get?_cons,ih]
    by_cases here : n = k
    · subst here
      by_cases same : n = key
      · simp [same]
      · simp [same]
    · simp [here]

theorem get?_erase (key n : Nat) (m : NatMap α) : get? (erase key m) n = if n = key then none else get? m n := by
  induction m with
  | nil => simp [erase,get?]
  | cons pair rest ih =>
    obtain ⟨k,v⟩ := pair
    unfold erase at ih ⊢
    rw [List.filter_cons]
    by_cases gone : k = key
    · subst gone
      simp only [ne_eq,not_true_eq_false,decide_false,Bool.false_eq_true,if_false]
      rw [ih,get?_cons]
      by_cases here : n = k
      · simp [here]
      · simp [here]
    · simp only [ne_eq,gone,not_false_eq_true,decide_true,if_true]
      rw [get?_cons,get?_cons,ih]
      by_cases here : n = k
      · simp [here,gone]
      · simp [here]

theorem get?_eq_none (key : Nat) (m : NatMap α) : get? m key = none ↔ key ∉ m.map Prod.fst := by
  induction m with
  | nil => simp [get?]
  | cons pair rest ih =>
    obtain ⟨k,v⟩ := pair
    rw [get?_cons,List.map_cons,List.mem_cons,not_or,← ih]
    split
    · rename_i same
      simp [same]
    · rename_i differs
      simp [differs]

theorem keys_insert {key : Nat} {m : NatMap α} (absent : get? m key = none) (value : α) :
    ((insert key value m).map Prod.fst).Perm (key :: m.map Prod.fst) := by
  induction m with
  | nil => exact .refl _
  | cons pair rest ih =>
    obtain ⟨k,v⟩ := pair
    rw [get?_cons] at absent
    split at absent
    · cases absent
    · rename_i differs
      unfold insert
      split
      · exact .refl _
      · exact ((ih absent).cons k).trans (.swap key k _)

theorem keys_adjust (key : Nat) (f : α → α) (m : NatMap α) : (adjust key f m).map Prod.fst = m.map Prod.fst := by
  unfold adjust
  rw [List.map_map]
  refine List.map_congr_left fun pair _ => ?_
  simp only [Function.comp_apply]
  split <;> rfl

end Restack.NatMap
