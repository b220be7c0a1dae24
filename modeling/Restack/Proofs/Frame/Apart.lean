import Mathlib
import Restack.Proofs.Draft.Widths
import Restack.Proofs.Frame.Merge

namespace Restack

open Draft (Gauged Retains)

-- Pairs of registers. Above a wide value there is always one more register, and nothing
-- is known of it: a write takes both, and a merge keeps only pairs that were there.

namespace RegisterState

variable {d e : Draft} {a b state : RegisterState} {arrival : Arrival} {g h : Group} {type : Descriptor}

-- An open state is as wide as its group.
def Fits (d : Draft) : RegisterState → Prop
  | .unknown | .typed _ => True
  | .open32 g => d.Has g ∧ d.isWide g = false
  | .open64 g => d.Has g ∧ d.isWide g = true

theorem fits_typed (type : Descriptor) (d : Draft) : (RegisterState.typed type).Fits d := trivial

theorem Fits.retains (kept : Retains d e) (fits : a.Fits d) : a.Fits e := by
  cases a with
  | unknown => trivial
  | typed type => trivial
  | open32 g | open64 g => exact ⟨kept.has g fits.1,(kept.width g fits.1).trans fits.2⟩

theorem Fits.group (fits : a.Fits d) (group : a.group? = some g) : d.Has g ∧ d.isWide g = a.isWide := by
  cases a <;> cases group <;> exact fits

theorem settled_cases (a : RegisterState) (d : Draft) :
    a.settled d = a ∨ ∃ g type, a.group? = some g ∧ d.resolution? g = some type ∧ a.settled d = .typed type := by
  unfold settled
  split
  · rename_i type found
    obtain ⟨g,group,known⟩ := Option.bind_eq_some_iff.mp found
    exact .inr ⟨g,type,group,known,rfl⟩
  · exact .inl rfl

theorem settled_fits (fits : a.Fits d) : (a.settled d).Fits d := by
  rcases settled_cases a d with same | ⟨g,type,-,-,same⟩
  · rwa [same]
  · rw [same]
    trivial

theorem settled_wide (gauged : d.Gauged) (fits : a.Fits d) (wide : (a.settled d).isWide = true) : a.isWide = true := by
  rcases settled_cases a d with same | ⟨g,type,group,known,same⟩
  · rwa [same] at wide
  · rw [same] at wide
    obtain ⟨has,width⟩ := fits.group group
    rw [← width]
    exact gauged.narrow g type has known wide

-- A result of `meet`, as far as widths go. Of the two states that meet, the first is the one
-- that is replaced.
structure Narrows (d : Draft) (a state : RegisterState) (e : Draft) : Prop where
  gauged : e.Gauged
  retains : Retains d e
  fits : state.Fits e
  wide : state.isWide = true → a.isWide = true
  lost : a = .unknown → state = .unknown

theorem narrows_unknown (gauged : d.Gauged) (a : RegisterState) : Narrows d a .unknown d :=
  ⟨gauged,.refl d,trivial,fun wide => (nomatch wide),fun _ => rfl⟩

theorem conflict_narrows (gauged : d.Gauged) (done : arrival.conflict here there = .ok state) : Narrows d a state d := by
  cases arrival with
  | handler =>
    cases done
    exact narrows_unknown gauged a
  | branch => simp [Arrival.conflict] at done

theorem meetTypes_narrows {s t : Descriptor} (gauged : d.Gauged) (done : meetTypes s t arrival = .ok state) :
    Narrows d (.typed s) state d := by
  unfold meetTypes at done
  split at done
  · cases done
    exact ⟨gauged,.refl d,trivial,id,fun none => (nomatch none)⟩
  · split at done
    · split at done
      · cases done
        exact ⟨gauged,.refl d,trivial,id,fun none => (nomatch none)⟩
      · cases done
        exact ⟨gauged,.refl d,trivial,fun wide => (nomatch wide),fun none => (nomatch none)⟩
    · exact conflict_narrows gauged done

theorem meetGroups_narrows (gauged : d.Gauged) (left : d.Has g) (right : d.Has h) (openLeft : d.resolution? g = none)
    (openRight : d.resolution? h = none) (even : d.isWide g = d.isWide h) {rebuilt : Group → RegisterState}
    (shape : ∀ k l, (rebuilt k).isWide = (rebuilt l).isWide) (open_ : ∀ k, rebuilt k ≠ .unknown)
    (same : ∀ k (e : Draft), e.Has k → e.isWide k = d.isWide g → (rebuilt k).Fits e)
    (done : meetGroups g h rebuilt arrival d = (state,e)) : Narrows d (rebuilt g) state e := by
  unfold meetGroups at done
  split at done
  · cases done
    exact narrows_unknown gauged _
  · simp only [Prod.mk.injEq,Draft.union_id] at done
    obtain ⟨rfl,rfl⟩ := done
    have kept := Draft.retains_union d g h
    have root := gauged.has_root left
    refine ⟨gauged.union left right openLeft openRight even,kept,?_,?_,?_⟩
    · apply same
      · exact kept.has _ root
      · rw [kept.width _ root,gauged.level g left]
    · intro wide
      rwa [shape g]
    · intro none
      exact absurd none (open_ g)

theorem meetOpen_narrows (gauged : d.Gauged) (has : d.Has g) (fits : type.isWide = true → d.isWide g = true)
    (even : a.isWide = type.isWide) (known : a ≠ .unknown) (done : meetOpen g type arrival d = .ok (state,e)) :
    Narrows d a state e := by
  cases arrival with
  | handler =>
    cases done
    exact narrows_unknown gauged a
  | branch =>
    simp only [meetOpen,bind_eq_ok,pure_eq_ok,Prod.mk.injEq] at done
    obtain ⟨m,resolved,rfl,rfl⟩ := done
    refine ⟨gauged.resolve has fits resolved,Draft.retains_resolve resolved,trivial,?_,fun none => absurd none known⟩
    intro wide
    rw [even]
    exact wide

theorem meet_narrows (gauged : d.Gauged) (left : a.Fits d) (right : b.Fits d)
    (openLeft : ∀ g, a.group? = some g → d.resolution? g = none)
    (openRight : ∀ g, b.group? = some g → d.resolution? g = none)
    (done : a.meet b arrival d = .ok (state,e)) : Narrows d a state e := by
  have unknown : (.ok (.unknown,d) : Except Fault _) = .ok (state,e) → Narrows d a state e := by
    rintro ⟨⟩
    exact narrows_unknown gauged a
  have clash : (do return (← arrival.conflict a b,d) : Except Fault _) = .ok (state,e) → Narrows d a state e := by
    intro done
    simp only [bind_eq_ok,pure_eq_ok,Prod.mk.injEq] at done
    obtain ⟨_,conflict,rfl,rfl⟩ := done
    exact conflict_narrows gauged conflict
  -- An open value on one side, a type on the other, in this order or the other.
  have mixed : ∀ (g : Group) (type : Descriptor), d.Has g → a ≠ .unknown → a.isWide = type.isWide ∨ b.isWide = type.isWide →
      d.isWide g = a.isWide ∨ d.isWide g = b.isWide →
      (if a.isWide = b.isWide then meetOpen g type arrival d
        else do return (← arrival.conflict a b,d)) = .ok (state,e) → Narrows d a state e := by
    intro g type has known typed open_ done
    split at done
    · rename_i even
      have whole : a.isWide = type.isWide := typed.elim id even.trans
      have group : d.isWide g = type.isWide := open_.elim (·.trans whole) fun same => same.trans (even.symm.trans whole)
      exact meetOpen_narrows gauged has (fun wide => group.trans wide) whole known done
    · exact clash done
  cases a with
  | unknown => exact unknown done
  | typed s =>
    cases b with
    | unknown => exact unknown done
    | typed t =>
      simp only [meet,bind_eq_ok,pure_eq_ok,Prod.mk.injEq] at done
      obtain ⟨_,met,rfl,rfl⟩ := done
      exact meetTypes_narrows gauged met
    | open32 h => exact mixed h s right.1 (by simp) (.inl rfl) (.inr right.2) done
    | open64 h => exact mixed h s right.1 (by simp) (.inl rfl) (.inr right.2) done
  | open32 g =>
    cases b with
    | unknown => exact unknown done
    | typed t => exact mixed g t left.1 (by simp) (.inr rfl) (.inl left.2) done
    | open32 h =>
      exact meetGroups_narrows gauged left.1 right.1 (openLeft g rfl) (openRight h rfl) (left.2.trans right.2.symm)
        (fun _ _ => rfl) (by simp) (fun k e has width => ⟨has,width.trans left.2⟩) (Except.ok.inj done)
    | open64 h => exact clash done
  | open64 g =>
    cases b with
    | unknown => exact unknown done
    | typed t => exact mixed g t left.1 (by simp) (.inr rfl) (.inl left.2) done
    | open32 h => exact clash done
    | open64 h =>
      exact meetGroups_narrows gauged left.1 right.1 (openLeft g rfl) (openRight h rfl) (left.2.trans right.2.symm)
        (fun _ _ => rfl) (by simp) (fun k e has width => ⟨has,width.trans left.2⟩) (Except.ok.inj done)

end RegisterState

namespace Frame

variable {d e : Draft} {f incoming k m : Frame} {arrival : Arrival} {r : Nat} {value : RegisterState}

structure Apart (d : Draft) (f : Frame) : Prop where
  fits : ∀ r, (f.state r).Fits d
  above : ∀ r, (f.state r).isWide = true → r + 1 < f.size ∧ f.state (r + 1) = .unknown

theorem Apart.retains (kept : Retains d e) (apart : f.Apart d) : f.Apart e :=
  ⟨fun r => (apart.fits r).retains kept,apart.above⟩

theorem Apart.set (apart : f.Apart d) (fits : value.Fits d) (done : f.set r value = .ok k) : k.Apart d := by
  obtain ⟨size,inside,room,states⟩ := set_state done
  refine ⟨?_,?_⟩
  · intro q
    rw [states]
    split
    · exact fits
    · split
      · trivial
      · split
        · trivial
        · exact apart.fits q
  · intro q wide
    rw [states] at wide
    rw [size,states]
    split at wide
    · rename_i here
      subst here
      exact ⟨room wide,by simp [wide]⟩
    · split at wide
      · cases wide
      · split at wide
        · cases wide
        · rename_i elsewhere _ kept
          obtain ⟨more,empty⟩ := apart.above q wide
          refine ⟨more,?_⟩
          rw [if_neg fun below => kept ⟨below,wide⟩,empty]
          split
          · rfl
          · split <;> rfl

-- How far a merge has come: no pair is in the frame now that was not there at first.
structure NarrowedTo (f : Frame) (d : Draft) (m : Frame) (e : Draft) : Prop where
  size : m.size = f.size
  gauged : e.Gauged
  retains : Retains d e
  fits : ∀ r, (m.state r).Fits e
  wide : ∀ r, (m.state r).isWide = true → (f.state r).isWide = true
  lost : ∀ r, f.state r = .unknown → m.state r = .unknown

theorem mergeAt_narrows {n : Nat} {next : Frame × Draft} (coming : ∀ r, (incoming.state r).Fits d)
    (before : NarrowedTo f d m e) (done : mergeAt incoming arrival (m,e) n = .ok next) : NarrowedTo f d next.1 next.2 := by
  simp only [mergeAt,bind_eq_ok,pure_eq_ok,within_eq_ok] at done
  obtain ⟨⟨met,k⟩,meet,rfl⟩ := done
  have here : (m.state n).Fits e := before.fits n
  have there : (incoming.state n).Fits e := (coming n).retains before.retains
  have result := RegisterState.meet_narrows before.gauged (RegisterState.settled_fits here) (RegisterState.settled_fits there)
    (fun _ => RegisterState.settled_open) (fun _ => RegisterState.settled_open) meet
  have updated : ∀ r, (⟨m.registers.setIfInBounds n met⟩ : Frame).state r =
      if n = r ∧ r < m.size then met else m.state r := fun r => state_set m n r met
  refine ⟨by simpa [Frame.size] using before.size,result.gauged,before.retains.trans result.retains,?_,?_,?_⟩
  · intro r
    rw [updated]
    split
    · exact result.fits
    · exact (before.fits r).retains result.retains
  · intro r wide
    rw [updated] at wide
    split at wide
    · rename_i same
      obtain ⟨rfl,-⟩ := same
      exact before.wide n (RegisterState.settled_wide before.gauged here (result.wide wide))
    · exact before.wide r wide
  · intro r none
    rw [updated]
    split
    · rename_i same
      obtain ⟨rfl,-⟩ := same
      apply result.lost
      rw [before.lost n none]
      rfl
    · exact before.lost r none

theorem Apart.merge (gauged : d.Gauged) (apart : f.Apart d) (coming : incoming.Apart d)
    (done : f.merge incoming arrival d = .ok (m,e)) : e.Gauged ∧ Retains d e ∧ m.Apart e ∧ m.size = f.size := by
  unfold Frame.merge at done
  split at done
  · simp at done
  · have merged : NarrowedTo f d m e := by
      refine foldlM_keeps (P := fun now : Frame × Draft => NarrowedTo f d now.1 now.2) ?_ ?_ done
      · intro before n after _ known step
        exact mergeAt_narrows coming.fits known step
      · exact ⟨rfl,gauged,.refl d,apart.fits,fun _ => id,fun _ => id⟩
    refine ⟨merged.gauged,merged.retains,⟨merged.fits,?_⟩,merged.size⟩
    intro r wide
    obtain ⟨more,empty⟩ := apart.above r (merged.wide r wide)
    rw [merged.size]
    exact ⟨more,merged.lost _ empty⟩

end Frame

end Restack
