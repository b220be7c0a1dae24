import Mathlib
import Restack.Proofs.Frame.Registers

namespace Restack

open Draft (Settles Sound Extends)

-- Where paths meet. The merged frame promises of each register only what both
-- frames promise, and the groups are settled on the way so that it is true.

namespace RegisterState

variable {P : Descriptor → Prop} {d e : Draft} {a b state : RegisterState} {arrival : Arrival} {g h : Group}

structure Meets (P : Descriptor → Prop) (d : Draft) (a b state : RegisterState) (e : Draft) : Prop where
  settles : Settles P d e
  valid : state.Valid P e
  left : Below e state a
  right : Below e state b

theorem meets_unknown (d : Draft) (a b : RegisterState) : Meets P d a b .unknown d :=
  ⟨.refl,trivial,.inl rfl,.inl rfl⟩

theorem conflict_meets (done : arrival.conflict here there = .ok state) : Meets P d a b state d := by
  cases arrival with
  | handler =>
    cases done
    exact meets_unknown d a b
  | branch => simp [Arrival.conflict] at done

theorem kind_int_of_differ {s t : Descriptor} (differ : s ≠ t) (same : s.kind? = t.kind?)
    (value : s.kind? ≠ some .reference) : s.kind? = some .int := by
  cases s <;> cases t <;> simp_all [Descriptor.kind?]

theorem meetTypes_meets {s t : Descriptor} (int : P .int) (typed : P s) (done : meetTypes s t arrival = .ok state) :
    Meets P d (.typed s) (.typed t) state d := by
  unfold meetTypes at done
  split at done
  · rename_i equal
    cases done
    subst equal
    exact ⟨.refl,typed,.refl _ _,.refl _ _⟩
  · rename_i differ
    split at done
    · rename_i same
      split at done
      · cases done
        exact ⟨.refl,typed,.refl _ _,.inr (congrArg Outlook.kind same)⟩
      · rename_i value
        cases done
        have kind := kind_int_of_differ differ same value
        refine ⟨.refl,int,.inr ?_,.inr ?_⟩
        · exact congrArg Outlook.kind kind.symm
        · exact congrArg Outlook.kind (kind.symm.trans same)
    · exact conflict_meets done

theorem meetGroups_meets (sound : d.Sound P) (left : d.Has g) (right : d.Has h) (openLeft : d.resolution? g = none)
    (openRight : d.resolution? h = none) {rebuilt : Group → RegisterState}
    (shape : ∀ k, (rebuilt k).group? = some k) (done : meetGroups g h rebuilt arrival d = (state,e)) : Meets P d (rebuilt g) (rebuilt h) state e := by
  unfold meetGroups at done
  split at done
  · cases done
    exact meets_unknown _ _ _
  · simp only [Prod.mk.injEq] at done
    obtain ⟨rfl,rfl⟩ := done
    have rooted := sound.toRooted
    have joined : ∀ k, d.Has k → d.root k = d.root g ∨ d.root k = d.root h → d.resolution? k = none →
        (rebuilt k).outlook (d.union g h).2 = .undecided (d.root g) := by
      intro k has member isOpen
      rw [outlook_unresolved (shape k) (by rwa [Draft.union_resolution rooted left openLeft openRight has]),
        Draft.union_root has]
      rcases member with same | same
      · simp [same]
      · simp [same]
    have kept : d.Has ⟨d.root g⟩ := rooted.has_root left
    have keptRoot : d.root ⟨d.root g⟩ = d.root g := rooted.root_root left
    have keptOpen : d.resolution? ⟨d.root g⟩ = none := (Draft.resolution_of_root keptRoot).trans openLeft
    rw [Draft.union_id]
    refine ⟨Draft.settles_union left right openLeft openRight,?_,.inr ?_,.inr ?_⟩
    · exact valid_of_group (shape _) ((Draft.union_has d _ _ _).mpr kept)
    · rw [joined _ kept (.inl keptRoot) keptOpen,joined g left (.inl rfl) openLeft]
    · rw [joined _ kept (.inl keptRoot) keptOpen,joined h right (.inr rfl) openRight]

theorem meetOpen_meets (sound : d.Sound P) (has : d.Has g) (isOpen : d.resolution? g = none) (typed : P type)
    (group : a.group? = some g) (done : meetOpen g type arrival d = .ok (state,e)) :
    Settles P d e ∧ state.Valid P e ∧ Below e state a ∧ Below e state (.typed type) := by
  cases arrival with
  | handler =>
    cases done
    exact ⟨.refl,trivial,.inl rfl,.inl rfl⟩
  | branch =>
    simp only [meetOpen,bind_eq_ok,pure_eq_ok,Prod.mk.injEq] at done
    obtain ⟨m,resolved,rfl,rfl⟩ := done
    refine ⟨Draft.settles_resolve has typed resolved,typed,.inr ?_,.refl _ _⟩
    have known := Draft.resolve_resolution sound.toRooted isOpen resolved has
    rw [if_pos rfl] at known
    rw [outlook_resolved group known]
    rfl

theorem meet_meets (sound : d.Sound P) (int : P .int) (left : a.Valid P d) (right : b.Valid P d)
    (openLeft : ∀ g, a.group? = some g → d.resolution? g = none)
    (openRight : ∀ g, b.group? = some g → d.resolution? g = none)
    (done : a.meet b arrival d = .ok (state,e)) : Meets P d a b state e := by
  have unknown : (.ok (.unknown,d) : Except Fault _) = .ok (state,e) → Meets P d a b state e := by
    rintro ⟨⟩
    exact meets_unknown d a b
  have clash : (do return (← arrival.conflict a b,d) : Except Fault _) = .ok (state,e) → Meets P d a b state e := by
    intro done
    simp only [bind_eq_ok,pure_eq_ok,Prod.mk.injEq] at done
    obtain ⟨_,conflict,rfl,rfl⟩ := done
    exact conflict_meets conflict
  -- An open value on one side, a type on the other.
  have mixed : ∀ (g : Group) (type : Descriptor) (open_ : RegisterState), open_.group? = some g → d.Has g →
      d.resolution? g = none → P type →
      (if a.isWide = b.isWide then meetOpen g type arrival d
        else do return (← arrival.conflict a b,d)) = .ok (state,e) →
      (a = open_ ∧ b = .typed type ∨ a = .typed type ∧ b = open_) → Meets P d a b state e := by
    intro g type open_ group has isOpen typed done sides
    split at done
    · obtain ⟨settles,valid,low,high⟩ := meetOpen_meets sound has isOpen typed group done
      rcases sides with ⟨rfl,rfl⟩ | ⟨rfl,rfl⟩
      · exact ⟨settles,valid,low,high⟩
      · exact ⟨settles,valid,high,low⟩
    · exact clash done
  cases a with
  | unknown => exact unknown done
  | typed s =>
    cases b with
    | unknown => exact unknown done
    | typed t =>
      simp only [meet,bind_eq_ok,pure_eq_ok,Prod.mk.injEq] at done
      obtain ⟨_,met,rfl,rfl⟩ := done
      exact meetTypes_meets int left met
    | open32 h => exact mixed h s (.open32 h) rfl right (openRight h rfl) left done (.inr ⟨rfl,rfl⟩)
    | open64 h => exact mixed h s (.open64 h) rfl right (openRight h rfl) left done (.inr ⟨rfl,rfl⟩)
  | open32 g =>
    cases b with
    | unknown => exact unknown done
    | typed t => exact mixed g t (.open32 g) rfl left (openLeft g rfl) right done (.inl ⟨rfl,rfl⟩)
    | open32 h =>
      exact meetGroups_meets sound left right (openLeft g rfl) (openRight h rfl) (fun _ => rfl) (Except.ok.inj done)
    | open64 h => exact clash done
  | open64 g =>
    cases b with
    | unknown => exact unknown done
    | typed t => exact mixed g t (.open64 g) rfl left (openLeft g rfl) right done (.inl ⟨rfl,rfl⟩)
    | open32 h => exact clash done
    | open64 h =>
      exact meetGroups_meets sound left right (openLeft g rfl) (openRight h rfl) (fun _ => rfl) (Except.ok.inj done)

-- On a branch a value is lost only where there was none.

theorem meetTypes_lost {s t : Descriptor} : meetTypes s t .branch ≠ .ok .unknown := by
  unfold meetTypes
  split
  · simp
  · split
    · split <;> simp
    · simp [Arrival.conflict]

theorem meetGroups_lost {rebuilt : Group → RegisterState} (shape : ∀ k, (rebuilt k).group? = some k) :
    meetGroups g h rebuilt .branch d ≠ (.unknown,e) := by
  intro done
  have open_ := shape (d.union g h).1
  simp only [meetGroups,reduceCtorEq,decide_false,Bool.false_and,Bool.false_eq_true,if_false,Prod.mk.injEq] at done
  rw [done.1] at open_
  cases open_

theorem meet_lost (done : a.meet b .branch d = .ok (.unknown,e)) : a = .unknown ∨ b = .unknown := by
  have clash : (do return (← Arrival.branch.conflict a b,d) : Except Fault _) ≠ .ok (RegisterState.unknown,e) := by
    intro done
    simp only [bind_eq_ok,Arrival.conflict] at done
    obtain ⟨_,conflict,-⟩ := done
    simp at conflict
  have mixed : ∀ (g : Group) (type : Descriptor), (if a.isWide = b.isWide then meetOpen g type .branch d
      else do return (← Arrival.branch.conflict a b,d)) ≠ .ok (.unknown,e) := by
    intro g type done
    split at done
    · simp only [meetOpen,bind_eq_ok,pure_eq_ok,Prod.mk.injEq] at done
      obtain ⟨_,-,typed,-⟩ := done
      cases typed
    · exact clash done
  cases a with
  | unknown => exact .inl rfl
  | typed s =>
    cases b with
    | unknown => exact .inr rfl
    | typed t =>
      simp only [meet,bind_eq_ok,pure_eq_ok,Prod.mk.injEq] at done
      obtain ⟨_,met,rfl,-⟩ := done
      exact absurd met meetTypes_lost
    | open32 h => exact absurd done (mixed h s)
    | open64 h => exact absurd done (mixed h s)
  | open32 g =>
    cases b with
    | unknown => exact .inr rfl
    | typed t => exact absurd done (mixed g t)
    | open32 h => exact absurd (Except.ok.inj done) (meetGroups_lost fun _ => rfl)
    | open64 h => exact absurd done clash
  | open64 g =>
    cases b with
    | unknown => exact .inr rfl
    | typed t => exact absurd done (mixed g t)
    | open32 h => exact absurd done clash
    | open64 h => exact absurd (Except.ok.inj done) (meetGroups_lost fun _ => rfl)

theorem settled_unknown (none : a.settled d = .unknown) : a = .unknown := by
  unfold settled at none
  split at none
  · cases none
  · exact none

end RegisterState

namespace Frame

variable {P : Descriptor → Prop} {d e : Draft} {f incoming m n : Frame} {arrival : Arrival} {r : Nat}

structure MergedTo (P : Descriptor → Prop) (f incoming : Frame) (d : Draft) (n : Nat) (m : Frame) (e : Draft) : Prop where
  size : m.size = f.size
  settles : Settles P d e
  valid : m.Valid P e
  left : Below e m f
  right : ∀ r < n, RegisterState.Below e (m.state r) (incoming.state r)

theorem mergeAt_step (sound : d.Sound P) (int : P .int) (valid : f.Valid P d) (coming : incoming.Valid P d)
    {n : Nat} {next : Frame × Draft} (before : MergedTo P f incoming d n m e)
    (done : mergeAt incoming arrival (m,e) n = .ok next) : MergedTo P f incoming d (n + 1) next.1 next.2 := by
  simp only [mergeAt,bind_eq_ok,pure_eq_ok,within_eq_ok] at done
  obtain ⟨⟨met,k⟩,meet,rfl⟩ := done
  have soundE := before.settles.sound sound
  have grown := before.settles.extends sound
  have here : (m.state n).Valid P e := before.valid n
  have there : (incoming.state n).Valid P e := (coming n).extends grown
  have result := RegisterState.meet_meets soundE int (RegisterState.settled_valid soundE here)
    (RegisterState.settled_valid soundE there) (fun _ => RegisterState.settled_open)
    (fun _ => RegisterState.settled_open) meet
  have further := result.settles.extends soundE
  have lowHere : RegisterState.Below k met (m.state n) := by
    refine result.left.trans (.inr ?_)
    exact RegisterState.outlook_extends further (RegisterState.settled_valid soundE here) here
      (RegisterState.outlook_settled _ _)
  have lowThere : RegisterState.Below k met (incoming.state n) := by
    refine result.right.trans (.inr ?_)
    exact RegisterState.outlook_extends further (RegisterState.settled_valid soundE there) there
      (RegisterState.outlook_settled _ _)
  have updated : ∀ r, (⟨m.registers.setIfInBounds n met⟩ : Frame).state r =
      if n = r ∧ r < m.size then met else m.state r := fun r => state_set m n r met
  refine ⟨by simpa [Frame.size] using before.size,before.settles.trans result.settles,?_,?_,?_⟩
  · intro r
    rw [updated]
    split
    · exact result.valid
    · exact (before.valid r).extends further
  · intro r
    rw [updated]
    have old : RegisterState.Below k (m.state r) (f.state r) :=
      (before.left r).extends further (before.valid r) ((valid r).extends grown)
    split
    · rename_i same
      rw [same.1] at lowHere
      exact lowHere.trans old
    · exact old
  · intro r small
    rw [updated]
    split
    · rename_i same
      rw [← same.1]
      exact lowThere
    · rename_i other
      by_cases equal : n = r
      · rw [state_outside (Nat.le_of_not_lt fun inside => other ⟨equal,inside⟩)]
        exact .inl rfl
      · exact (before.right r (by omega)).extends further (before.valid r) ((coming r).extends grown)

theorem merge_upto (sound : d.Sound P) (int : P .int) (valid : f.Valid P d) (coming : incoming.Valid P d) (n : Nat)
    {result : Frame × Draft} (done : (List.range n).foldlM (mergeAt incoming arrival) (f,d) = .ok result) :
    MergedTo P f incoming d n result.1 result.2 := by
  induction n generalizing result with
  | zero =>
    cases done
    exact ⟨rfl,.refl,valid,.refl d f,fun r small => absurd small (Nat.not_lt_zero r)⟩
  | succ n ih =>
    rw [List.range_succ,foldlM_snoc_ok] at done
    obtain ⟨before,prior,last⟩ := done
    exact mergeAt_step sound int valid coming (ih prior) last

structure Merged (P : Descriptor → Prop) (f incoming : Frame) (d : Draft) (m : Frame) (e : Draft) : Prop where
  size : m.size = f.size
  settles : Settles P d e
  valid : m.Valid P e
  left : Below e m f
  right : Below e m incoming

theorem merge_merged (sound : d.Sound P) (int : P .int) (valid : f.Valid P d) (coming : incoming.Valid P d)
    (done : f.merge incoming arrival d = .ok (m,e)) : Merged P f incoming d m e := by
  unfold merge at done
  split at done
  · simp at done
  · have all := merge_upto sound int valid coming f.size done
    refine ⟨all.size,all.settles,all.valid,all.left,?_⟩
    intro r
    by_cases inside : r < f.size
    · exact all.right r inside
    · have outside : m.size ≤ r := by
        have size : m.size = f.size := all.size
        omega
      rw [state_outside outside]
      exact .inl rfl

theorem mergeAt_lost {before after : Frame × Draft} {n : Nat} (done : mergeAt incoming .branch before n = .ok after)
    (lost : after.1.state r = .unknown) : before.1.state r = .unknown ∨ incoming.state r = .unknown := by
  simp only [mergeAt,bind_eq_ok,pure_eq_ok,within_eq_ok] at done
  obtain ⟨⟨met,k⟩,meet,rfl⟩ := done
  change (⟨before.1.registers.setIfInBounds n met⟩ : Frame).state r = .unknown at lost
  rw [state_set] at lost
  split at lost
  · rename_i same
    obtain ⟨rfl,-⟩ := same
    cases lost
    exact (RegisterState.meet_lost meet).imp RegisterState.settled_unknown RegisterState.settled_unknown
  · exact .inl lost

theorem merge_lost (done : f.merge incoming .branch d = .ok (m,e)) (lost : m.state r = .unknown) :
    f.state r = .unknown ∨ incoming.state r = .unknown := by
  unfold merge at done
  split at done
  · simp at done
  · refine foldlM_keeps (P := fun now : Frame × Draft => now.1.state r = .unknown →
      f.state r = .unknown ∨ incoming.state r = .unknown) ?_ .inl done lost
    intro before n after _ known step gone
    exact (mergeAt_lost step gone).elim known .inr

end Frame

end Restack
