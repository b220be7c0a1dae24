import Mathlib
import Restack.Proofs.Body.Resolve
import Restack.Proofs.Lowering.Run

namespace Restack

open Lowering (bare)

-- Two passes over a body. The first one records where instructions start; the second
-- one hands them on, each after the label of its address, and comes to the same places.

variable {c : Container} {code : CodeItem} {units : CodeUnits} {t : LabelTable} {fault : Fault}

structure Partitioned (units : CodeUnits) (starts : List Nat) (blocks : List Block) : Prop where
  stands : ∀ block ∈ blocks, Walk.step units block.address = .ok block
  inside : ∀ block ∈ blocks, block.address + block.units ≤ units.size
  once : ∀ a < units.size, ∃! block, block ∈ blocks ∧ block.Covers a
  begins : ∀ a, a ∈ starts ↔ ∃ e, .instruction a e ∈ blocks
  ascending : starts.Pairwise (· < ·)

theorem walk_partitioned (surveyed : t.Surveyed code) : Partitioned code.units t.starts (Walk.ofCode code.units).blocks where
  stands := fun _ member => (go_blocks member).2.2
  inside := fun _ member => ((go_tiles surveyed.fills).bounds member).2
  once := fun a small => (go_tiles surveyed.fills).once (Nat.zero_le a) small
  begins := fun _ => surveyed.starts ▸ mem_starts
  ascending := surveyed.starts ▸ starts_sorted code.units

theorem foldlM_error {f : σ → α → Except Fault σ} {s : σ} {items : List α} (failed : items.foldlM f s = .error fault) :
    ∃ before item rest m, items = before ++ item :: rest ∧ before.foldlM f s = .ok m ∧ f m item = .error fault := by
  induction items generalizing s with
  | nil => cases failed
  | cons item items ih =>
    rw [List.foldlM_cons] at failed
    cases step : f s item with
    | error g =>
      rw [step] at failed
      cases failed
      exact ⟨[],item,items,s,rfl,rfl,step⟩
    | ok m =>
      rw [step] at failed
      obtain ⟨before,next,rest,n,rfl,ran,broke⟩ := ih failed
      refine ⟨item :: before,next,rest,n,rfl,?_,broke⟩
      rw [List.foldlM_cons,step]
      exact ran

theorem body_foldlM_error {f : σ → BodyItem → Except Fault σ} {s : σ} {body : DecodedBody}
    (failed : body.foldlM f s = .error fault) :
    (∃ before item rest m, body.items = before ++ item :: rest ∧ before.foldlM f s = .ok m ∧ f m item = .error fault) ∨
      body.ending = .error fault := by
  unfold DecodedBody.foldlM at failed
  cases ran : body.items.foldlM f s with
  | error g =>
    rw [ran] at failed
    cases failed
    exact .inl (foldlM_error ran)
  | ok m =>
    rw [ran] at failed
    cases ends : body.ending with
    | ok u =>
      rw [ends] at failed
      cases failed
    | error g =>
      rw [ends] at failed
      cases failed
      exact .inr rfl

theorem HandsOn.ends {starts : List Nat} {last : List BodyItem} {body : DecodedBody}
    (hands : HandsOn c units t starts last body) (broke : body.ending = .error fault) :
    ∃ pc ∈ starts, LookupFault c units pc fault := by
  cases hands with
  | all => cases broke
  | @upto handed pc rest _ same _ failed =>
    cases broke
    exact ⟨pc,by rw [same]; simp,failed⟩

@[simp] theorem ensureAll_starts (t : LabelTable) (addresses : List UInt32) : (t.ensureAll addresses).starts = t.starts := by
  induction addresses generalizing t with
  | nil => rfl
  | cons a rest ih => exact (ih (t.ensure a.toNat)).trans (t.ensure_starts a.toNat)

-- The table of the first pass, with labels for any further addresses, takes the second pass
-- through the same starts. Only a look-up in the container can stop it, or what it feeds.
theorem passes_agree (scanned : LabelTable.scan code = .ok t) (c : Container) (addresses : List UInt32) :
    Partitioned code.units t.starts (Walk.ofCode code.units).blocks ∧
    ∃ labels, labels = t.ensureAll addresses ∧ labels.labelAt? code.units.size = some labels.stopLabel ∧
      HandsOn c code.units labels t.starts [.label code.units.size labels.stopLabel] (DecodedBody.ofCode c code.units labels) ∧
      ∀ (σ : Type) (f : σ → BodyItem → Except Fault σ) (s : σ) (fault : Fault),
        (DecodedBody.ofCode c code.units labels).foldlM f s = .error fault →
        (∃ before item rest m, (DecodedBody.ofCode c code.units labels).items = before ++ item :: rest ∧
          before.foldlM f s = .ok m ∧ f m item = .error fault) ∨
        ((∃ pc ∈ t.starts, LookupFault c code.units pc fault) ∧ ∃ cause, fault.cause = .malformed cause) := by
  have surveyed := LabelTable.scan_surveyed scanned
  have grown := surveyed.ensureAll addresses
  have hands := ofCode_handsOn grown c
  rw [ensureAll_starts,grown.laid.stop] at hands
  refine ⟨walk_partitioned surveyed,_,rfl,?_,hands,?_⟩
  · obtain ⟨entry,found⟩ := grown.laid.last
    rw [← grown.laid.stop]
    simp [LabelTable.stopLabel,LabelTable.labelAt?,found]
  · intro σ f s fault failed
    rcases body_foldlM_error failed with fed | ends
    · exact .inl fed
    · obtain ⟨pc,start,looked⟩ := hands.ends ends
      exact .inr ⟨⟨pc,start,looked⟩,looked.cause⟩

-- A switch with its data block between two instructions, and a string that is looked up.
def switchOverData : CodeItem where
  registers := 1
  ins := 1
  outs := 0
  debugInfo := 0
  units := #[0x002b,0x0006,0x0000,0x0928,0x0000,0x0000,0x0100,0x0001,0x0007,0x0000,0x000c,0x0000,0x001a,0x0000,0x000e]
  tries := []
  handlers := []

-- There are no strings to look up, so the second pass stops at address 12.
theorem passes_agree_switchOverData :
    ∃ t, LabelTable.scan switchOverData = .ok t ∧ t.starts = [0,3,4,5,12,14] ∧
      Partitioned switchOverData.units t.starts (Walk.ofCode switchOverData.units).blocks ∧
      ∃ labels, labels = t.ensureAll [4] ∧ labels.labelAt? switchOverData.units.size = some labels.stopLabel ∧
        HandsOn bare switchOverData.units labels t.starts [.label switchOverData.units.size labels.stopLabel]
          (DecodedBody.ofCode bare switchOverData.units labels) ∧
        ∀ (σ : Type) (f : σ → BodyItem → Except Fault σ) (s : σ) (fault : Fault),
          (DecodedBody.ofCode bare switchOverData.units labels).foldlM f s = .error fault →
          (∃ before item rest m, (DecodedBody.ofCode bare switchOverData.units labels).items = before ++ item :: rest ∧
            before.foldlM f s = .ok m ∧ f m item = .error fault) ∨
          ((∃ pc ∈ t.starts, LookupFault bare switchOverData.units pc fault) ∧ ∃ cause, fault.cause = .malformed cause) := by
  obtain ⟨t,scanned,starts⟩ : ∃ t, LabelTable.scan switchOverData = .ok t ∧ t.starts = [0,3,4,5,12,14] := ⟨_,rfl,rfl⟩
  exact ⟨t,scanned,starts,passes_agree scanned bare [4]⟩

end Restack
