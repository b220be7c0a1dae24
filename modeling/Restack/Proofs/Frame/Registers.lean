import Mathlib
import Restack.Proofs.Frame.Outlook

namespace Restack.Frame

open Draft (Extends)

-- A frame as a function from register numbers. Registers outside it are unknown.

variable {P : Descriptor → Prop} {d e : Draft} {f k : Frame} {r : Nat} {value : RegisterState}

def state (f : Frame) (r : Nat) : RegisterState := f.registers.getD r .unknown

def Valid (P : Descriptor → Prop) (d : Draft) (f : Frame) : Prop := ∀ r, (f.state r).Valid P d

theorem Valid.extends (grown : Extends d e) (valid : f.Valid P d) : f.Valid P e :=
  fun r => (valid r).extends grown

def Below (d : Draft) (f g : Frame) : Prop := ∀ r, RegisterState.Below d (f.state r) (g.state r)

theorem Below.refl (d : Draft) (f : Frame) : Below d f f := fun r => .refl d (f.state r)

theorem Below.trans {g k : Frame} (first : Below d f g) (second : Below d g k) : Below d f k :=
  fun r => (first r).trans (second r)

theorem Below.extends {g : Frame} (grown : Extends d e) (left : f.Valid P d) (right : g.Valid P d)
    (below : Below d f g) : Below e f g :=
  fun r => (below r).extends grown (left r) (right r)

theorem state_set (f : Frame) (r q : Nat) (state : RegisterState) :
    (⟨f.registers.setIfInBounds r state⟩ : Frame).state q =
      if r = q ∧ q < f.size then state else f.state q := by
  simp only [Frame.state,size,Array.getD_eq_getD_getElem?,Array.getElem?_setIfInBounds]
  by_cases here : r = q
  · subst here
    by_cases inside : r < f.registers.size
    · simp [inside]
    · simp [inside]
  · simp [here]

theorem state_outside (outside : f.size ≤ r) : f.state r = .unknown := by
  have none : f.registers[r]? = none := Array.getElem?_eq_none outside
  simp [state,none]

theorem state_modify (f : Frame) (r q : Nat) (change : RegisterState → RegisterState) :
    (⟨f.registers.modify r change⟩ : Frame).state q = if r = q ∧ q < f.size then change (f.state q) else f.state q := by
  simp only [Frame.state,size,Array.getD_eq_getD_getElem?,Array.getElem?_modify]
  by_cases here : r = q
  · subst here
    by_cases inside : r < f.registers.size
    · simp [inside]
    · simp [inside]
  · simp [here]

@[simp] theorem ofSize_size (registers : Nat) : (ofSize registers).size = registers := by
  simp [ofSize,size]

theorem ofSize_state (registers r : Nat) : (ofSize registers).state r = .unknown := by
  simp only [state,ofSize,Array.getD_eq_getD_getElem?,Array.getElem?_replicate]
  split <;> rfl

theorem get_state (done : f.get d r = .ok value) : r < f.size ∧ value = (f.state r).settled d := by
  unfold get at done
  split at done
  · rename_i state found
    cases done
    have inside := (Array.getElem?_eq_some_iff.mp found).1
    exact ⟨inside,by simp [Frame.state,found]⟩
  · simp at done

theorem set_state (done : f.set r value = .ok k) :
    k.size = f.size ∧ r < f.size ∧ (value.isWide → r + 1 < f.size) ∧
      ∀ q, k.state q =
        if q = r then value
        else if value.isWide ∧ q = r + 1 then .unknown
        else if q + 1 = r ∧ (f.state q).isWide then .unknown else f.state q := by
  unfold set at done
  split at done
  · simp at done
  · rename_i fits
    simp only [Bool.or_eq_true,decide_eq_true_eq,Bool.and_eq_true,not_or,not_le,not_and] at fits
    obtain ⟨inside,above⟩ := fits
    cases done
    -- The three writes one after the other, each as a frame of its own.
    let lost : Frame := ⟨if 0 < r then f.registers.modify (r - 1) loseWide else f.registers⟩
    let upper : Frame := ⟨if value.isWide then lost.registers.setIfInBounds (r + 1) .unknown else lost.registers⟩
    have lostSize : lost.size = f.size := by
      simp only [lost,size]
      split <;> simp
    have upperSize : upper.size = f.size := by
      simp only [upper,size] at lostSize ⊢
      split <;> simp [lostSize]
    have lostState : ∀ q, lost.state q = if q + 1 = r ∧ (f.state q).isWide then .unknown else f.state q := by
      intro q
      simp only [lost]
      split
      · rw [state_modify]
        by_cases here : q + 1 = r
        · have below : r - 1 = q ∧ q < f.size := by omega
          simp [here,below,loseWide]
        · have other : ¬(r - 1 = q ∧ q < f.size) := by omega
          simp [here,other]
      · have first : ¬q + 1 = r := by omega
        simp [first,Frame.state]
    have upperState : ∀ q, upper.state q = if value.isWide ∧ q = r + 1 then .unknown else lost.state q := by
      intro q
      simp only [upper]
      split
      · rename_i wide
        rw [state_set,lostSize]
        by_cases here : q = r + 1
        · simp [here,wide,above wide]
        · simp [here,Ne.symm here]
      · rename_i narrow
        simp [narrow,Frame.state]
    refine ⟨?_,inside,above,?_⟩
    · rw [← upperSize]
      simp only [size,Array.size_setIfInBounds]
      rfl
    · intro q
      have last := state_set upper r q value
      rw [upperSize,upperState,lostState] at last
      refine last.trans ?_
      by_cases here : q = r
      · simp [here,inside]
      · simp [here,Ne.symm here]

end Restack.Frame
