import Mathlib
import Restack.Proofs.Frame.Swapped

namespace Restack

-- Where two paths meet, it does not matter which of them came first.

variable {d : Draft} {a b : Frame} {arrival : Arrival}

theorem merge_either_way (reached : d.Reached) (left : a.Over d) (right : b.Over d) :
    ((∃ result, a.merge b arrival d = .ok result) ↔ ∃ result, b.merge a arrival d = .ok result) ∧
    ∀ m e n k, a.merge b arrival d = .ok (m,e) → b.merge a arrival d = .ok (n,k) →
      k.events = e.events ∧
      (∀ g h, d.Has g → d.Has h → k.same g h = e.same g h) ∧
      (∀ g, d.Has g → k.resolution? g = e.resolution? g) ∧
      ∀ r < a.size, ∃ here there s t, a.get e r = .ok here ∧ b.get e r = .ok there ∧ m.get e r = .ok s ∧ n.get k r = .ok t ∧
        RegisterState.Swaps e k here there s t := by
  have sound := reached.rooted.sound
  refine ⟨⟨?_,?_⟩,?_⟩
  · rintro ⟨⟨m,e⟩,done⟩
    obtain ⟨n,k,other,-⟩ := Frame.merge_swapped sound trivial left.valid right.valid done
    exact ⟨(n,k),other⟩
  · rintro ⟨⟨n,k⟩,done⟩
    obtain ⟨m,e,other,-⟩ := Frame.merge_swapped sound trivial right.valid left.valid done
    exact ⟨(m,e),other⟩
  · intro m e n k done other
    obtain ⟨_,_,again,matched,swaps⟩ := Frame.merge_swapped sound trivial left.valid right.valid done
    cases other.symm.trans again
    have one := Frame.merge_merged sound trivial left.valid right.valid done
    have two := Frame.merge_merged sound trivial right.valid left.valid other
    have size := (Frame.merge_ok done).1
    have still : ∀ g, d.Has g → e.Has g := fun g => one.settles.has.mpr
    refine ⟨matched.events,?_,fun g has => matched.types g (still g has),?_⟩
    · intro g h hasG hasH
      simp only [Draft.same,matched.same g h (still g hasG) (still h hasH)]
    · intro r inside
      exact ⟨_,_,_,_,Frame.get_inside inside,Frame.get_inside (size ▸ inside),Frame.get_inside (one.size ▸ inside),
        Frame.get_inside (two.size ▸ size ▸ inside),swaps r inside inside⟩

-- Two constants become one value and a float, two classes meet, and an open value is named by the one frame or the other.
def twoConstants : Draft :=
  ⟨#[⟨0,false,[0],none⟩,⟨1,false,[1],none⟩,⟨2,true,[],none⟩,⟨3,true,[],none⟩],#[.insn (.const (.int 1)),.insn (.const (.int 2))]⟩

theorem twoConstants_reached : twoConstants.Reached :=
  .events #[.insn (.const (.int 1)),.insn (.const (.int 2))] (.addSite (g := ⟨1⟩) 1 (.addSite (g := ⟨0⟩) 0
    (.group true (.group true (.group false (.group false .start)))) (by decide)) (by decide))

def onePath : Frame := ⟨#[.open32 ⟨0⟩,.open32 ⟨1⟩,.typed (.object "A"),.open64 ⟨2⟩]⟩

def otherPath : Frame := ⟨#[.open32 ⟨1⟩,.typed .float,.typed (.object "B"),.open64 ⟨3⟩]⟩

theorem merge_either_way_twoConstants : ∃ m e n k, twoConstants.Reached ∧ onePath.Over twoConstants ∧ otherPath.Over twoConstants ∧
    onePath.merge otherPath .branch twoConstants = .ok (m,e) ∧ otherPath.merge onePath .branch twoConstants = .ok (n,k) ∧
    e.events = #[.insn (.const (.float 1)),.insn (.const (.float 2))] ∧ k.events = e.events ∧ k.resolution? ⟨0⟩ = e.resolution? ⟨0⟩ ∧
    m.get e 2 = .ok (.typed (.object "A")) ∧ n.get k 2 = .ok (.typed (.object "B")) ∧
    m.get e 3 = .ok (.open64 ⟨2⟩) ∧ n.get k 3 = .ok (.open64 ⟨3⟩) ∧ k.same ⟨2⟩ ⟨3⟩ = e.same ⟨2⟩ ⟨3⟩ := by
  have left : onePath.Over twoConstants := by decide
  have right : otherPath.Over twoConstants := by decide
  have done : onePath.merge otherPath .branch twoConstants = .ok (⟨#[.open32 ⟨0⟩,.typed .float,.typed (.object "A"),.open64 ⟨2⟩]⟩,
      ⟨#[⟨0,false,[],some .float⟩,⟨0,false,[],none⟩,⟨2,true,[],none⟩,⟨2,true,[],none⟩],
        #[.insn (.const (.float 1)),.insn (.const (.float 2))]⟩) := by cbv
  have other : otherPath.merge onePath .branch twoConstants = .ok (⟨#[.open32 ⟨1⟩,.typed .float,.typed (.object "B"),.open64 ⟨3⟩]⟩,
      ⟨#[⟨1,false,[],none⟩,⟨1,false,[],some .float⟩,⟨3,true,[],none⟩,⟨3,true,[],none⟩],
        #[.insn (.const (.float 1)),.insn (.const (.float 2))]⟩) := by cbv
  obtain ⟨events,same,types,-⟩ := (merge_either_way twoConstants_reached left right).2 _ _ _ _ done other
  exact ⟨_,_,_,_,twoConstants_reached,left,right,done,other,rfl,events,types ⟨0⟩ (by decide),rfl,rfl,rfl,rfl,
    same ⟨2⟩ ⟨3⟩ (by decide) (by decide)⟩

end Restack
