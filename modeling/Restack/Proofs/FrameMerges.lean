import Mathlib
import Restack.Proofs.Draft.Reached
import Restack.Proofs.Frame.Absorbed

namespace Restack

-- Merging frames, whatever was done to the groups before. A merged register holds what both frames hold, and
-- merging the same frame once more finds nothing to do: it names open values by their roots, and that is all.

variable {d e : Draft} {f incoming m : Frame} {arrival : Arrival} {r : Nat} {a b state : RegisterState}

-- Values of one kind, or one value that is open.
def RegisterState.Shares (d : Draft) : RegisterState → RegisterState → Prop
  | .typed s, .typed t => s.kind? = t.kind?
  | .open32 g, .open32 h | .open64 g, .open64 h => d.same g h = true
  | _, _ => False

theorem RegisterState.Absorbs.shares (absorbs : Absorbs d a b) (known : a ≠ .unknown) : a.Shares d b := by
  cases absorbs with
  | unknown => exact absurd rfl known
  | same => exact rfl
  | references left right => exact left.trans right.symm
  | ints right => exact right.symm
  | narrow same | wide same => exact decide_eq_true same

theorem RegisterState.Absorbs.lost (absorbs : Absorbs d a .unknown) : a = .unknown := by
  cases absorbs
  rfl

theorem merge_agrees_and_repeats (reached : d.Reached) (left : f.Over d) (right : incoming.Over d)
    (done : f.merge incoming arrival d = .ok (m,e)) :
    (∀ r state, m.get e r = .ok state → state ≠ .unknown → ∃ here there, f.get e r = .ok here ∧ incoming.get e r = .ok there ∧
      state.Shares e here ∧ state.Shares e there) ∧
    (∀ r, f.get d r = .ok .unknown ∨ incoming.get d r = .ok .unknown → m.get e r = .ok .unknown) ∧
    -- The draft stays, with its events, its groups and their types.
    ∃ again, m.merge incoming arrival e = .ok (again,e) ∧ ∀ r, again.get e r = (m.get e r).map (RegisterState.atRoot e) := by
  have sound := reached.rooted.sound
  have merged := Frame.merge_merged sound trivial left.valid right.valid done
  have absorbs := Frame.merge_absorbs sound trivial left.valid right.valid done
  obtain ⟨same,-⟩ := Frame.merge_ok done
  have size : incoming.size = m.size := same.trans merged.size.symm
  refine ⟨?_,?_,?_⟩
  · intro r state found known
    obtain ⟨inside,rfl⟩ := Frame.get_state found
    rw [merged.size] at inside
    exact ⟨_,_,Frame.get_inside inside,Frame.get_inside (same.symm ▸ inside),(absorbs r).1.shares known,(absorbs r).2.shares known⟩
  · intro r unknown
    have lost : r < f.size ∧ (m.state r).settled e = .unknown := by
      rcases unknown with here | there
      · obtain ⟨inside,none⟩ := Frame.get_state here
        have never := (absorbs r).1
        rw [RegisterState.settled_unknown none.symm] at never
        exact ⟨inside,never.lost⟩
      · obtain ⟨inside,none⟩ := Frame.get_state there
        have never := (absorbs r).2
        rw [RegisterState.settled_unknown none.symm] at never
        exact ⟨same ▸ inside,never.lost⟩
    rw [Frame.get_inside (Nat.lt_of_lt_of_eq lost.1 merged.size.symm),lost.2]
  · obtain ⟨again,repeated,alike,states⟩ := Frame.merge_absorbed size (fun r => (absorbs r).2) arrival
    refine ⟨again,repeated,?_⟩
    intro r
    by_cases inside : r < m.size
    · rw [Frame.get_inside inside,Frame.get_inside (Nat.lt_of_lt_of_eq inside alike.symm),states r inside,
        RegisterState.atRoot_settled (merged.settles.sound sound) (merged.valid r)]
      rfl
    · rw [Frame.get_outside (Nat.le_of_not_lt inside),Frame.get_outside (alike ▸ Nat.le_of_not_lt inside),alike]
      rfl

-- A constant waits for the first of two open values. They become one in register 0, and a float in register 1.
def waitingConstant : Draft := ⟨#[⟨0,false,[0],none⟩,⟨1,false,[],none⟩],#[.insn (.const (.int 0))]⟩

theorem waitingConstant_reached : waitingConstant.Reached :=
  .events #[.insn (.const (.int 0))] (.addSite (g := ⟨0⟩) 0 (.group false (.group false .start)) (by decide))

def openValues : Frame := ⟨#[.open32 ⟨0⟩,.open32 ⟨1⟩,.typed .byte,.unknown]⟩

def someTypes : Frame := ⟨#[.open32 ⟨1⟩,.typed .float,.typed .short,.typed .int]⟩

theorem merge_agrees_and_repeats_waitingConstant : ∃ m e again, waitingConstant.Reached ∧ openValues.Over waitingConstant ∧
    someTypes.Over waitingConstant ∧ openValues.merge someTypes .branch waitingConstant = .ok (m,e) ∧
    e.events = #[.insn (.const (.float 0))] ∧ m.get e 0 = .ok (.typed .float) ∧ m.get e 2 = .ok (.typed .int) ∧
    (∃ here there, openValues.get e 0 = .ok here ∧ someTypes.get e 0 = .ok there ∧
      (RegisterState.typed .float).Shares e here ∧ (RegisterState.typed .float).Shares e there) ∧
    m.get e 3 = .ok .unknown ∧ m.merge someTypes .branch e = .ok (again,e) ∧ again.get e 0 = .ok (.typed .float) := by
  have left : openValues.Over waitingConstant := by decide
  have right : someTypes.Over waitingConstant := by decide
  have done : openValues.merge someTypes .branch waitingConstant = .ok (⟨#[.open32 ⟨0⟩,.typed .float,.typed .int,.unknown]⟩,
      ⟨#[⟨0,false,[],some .float⟩,⟨0,false,[],none⟩],#[.insn (.const (.float 0))]⟩) := by cbv
  obtain ⟨agrees,lost,again,repeated,read⟩ := merge_agrees_and_repeats waitingConstant_reached left right done
  exact ⟨_,_,again,waitingConstant_reached,left,right,done,rfl,rfl,rfl,agrees 0 _ rfl (by decide),lost 3 (.inl rfl),repeated,read 0⟩

-- Three open values that become one, but register 0 is met before the last of them comes in. It is named by the
-- first then, and by the root of all three when the same frame is merged again.
def threeGroups : Draft := { cells := #[⟨0,false,[],none⟩,⟨1,false,[],none⟩,⟨2,false,[],none⟩] }

def crossing : Frame := ⟨#[.open32 ⟨0⟩,.open32 ⟨2⟩]⟩

def crossed : Frame := ⟨#[.open32 ⟨1⟩,.open32 ⟨0⟩]⟩

theorem merging_again_renames : ∃ m e again, threeGroups.Reached ∧ crossing.Over threeGroups ∧ crossed.Over threeGroups ∧
    crossing.merge crossed .branch threeGroups = .ok (m,e) ∧ m.merge crossed .branch e = .ok (again,e) ∧
    m.get e 0 = .ok (.open32 ⟨0⟩) ∧ again.get e 0 = .ok (.open32 ⟨2⟩) ∧ again.get e 0 ≠ m.get e 0 := by
  have reached : threeGroups.Reached := .group false (.group false (.group false .start))
  have once : crossing.merge crossed .branch threeGroups = .ok (⟨#[.open32 ⟨0⟩,.open32 ⟨2⟩]⟩,
      { cells := #[⟨2,false,[],none⟩,⟨2,false,[],none⟩,⟨2,false,[],none⟩] }) := by cbv
  have twice : Frame.merge ⟨#[.open32 ⟨0⟩,.open32 ⟨2⟩]⟩ crossed .branch
      { cells := #[⟨2,false,[],none⟩,⟨2,false,[],none⟩,⟨2,false,[],none⟩] } = .ok (⟨#[.open32 ⟨2⟩,.open32 ⟨2⟩]⟩,
        { cells := #[⟨2,false,[],none⟩,⟨2,false,[],none⟩,⟨2,false,[],none⟩] }) := by cbv
  refine ⟨_,_,_,reached,by decide,by decide,once,twice,rfl,rfl,?_⟩
  intro same
  have names := RegisterState.open32.inj (Except.ok.inj same)
  exact absurd names (by decide)

end Restack
