import Mathlib
import Restack.Proofs.Draft.History
import Restack.Proofs.Frame.Merge

namespace Restack

open Draft (Settles)

-- Everything that can come of two values where paths meet, said once, and where in a merge it comes of each register.

namespace RegisterState

variable {d e : Draft} {a b state : RegisterState} {arrival : Arrival} {s t type : Descriptor} {g h : Group}

inductive Unlike (d : Draft) : RegisterState → RegisterState → Prop where
  | kinds {s t : Descriptor} : s.kind? ≠ t.kind? → Unlike d (.typed s) (.typed t)
  | narrow {g h : Group} : d.root g ≠ d.root h → Unlike d (.open32 g) (.open32 h)
  | wide {g h : Group} : d.root g ≠ d.root h → Unlike d (.open64 g) (.open64 h)
  | widths {g h : Group} : Unlike d (.open32 g) (.open64 h)
  | widthsBack {g h : Group} : Unlike d (.open64 g) (.open32 h)
  | openTyped {a : RegisterState} {g : Group} {type : Descriptor} : a.group? = some g → Unlike d a (.typed type)
  | typedOpen {a : RegisterState} {g : Group} {type : Descriptor} : a.group? = some g → Unlike d (.typed type) a

inductive Meeting (d : Draft) : Arrival → RegisterState → RegisterState → RegisterState → Draft → Prop where
  | unknownLeft {arrival : Arrival} {b : RegisterState} : Meeting d arrival .unknown b .unknown d
  | unknownRight {arrival : Arrival} {a : RegisterState} : Meeting d arrival a .unknown .unknown d
  | same {arrival : Arrival} {type : Descriptor} : Meeting d arrival (.typed type) (.typed type) (.typed type) d
  | references {arrival : Arrival} {s t : Descriptor} : s.kind? = some .reference → t.kind? = some .reference →
      Meeting d arrival (.typed s) (.typed t) (.typed s) d
  | ints {arrival : Arrival} {s t : Descriptor} : s ≠ t → s.kind? = some .int → t.kind? = some .int →
      Meeting d arrival (.typed s) (.typed t) (.typed .int) d
  | narrow {arrival : Arrival} {g h : Group} : arrival = .branch ∨ d.root g = d.root h →
      Meeting d arrival (.open32 g) (.open32 h) (.open32 ⟨d.root g⟩) (d.union g h).2
  | wide {arrival : Arrival} {g h : Group} : arrival = .branch ∨ d.root g = d.root h →
      Meeting d arrival (.open64 g) (.open64 h) (.open64 ⟨d.root g⟩) (d.union g h).2
  | openTyped {a : RegisterState} {g : Group} {type : Descriptor} {e : Draft} : a.group? = some g → a.isWide = type.isWide →
      d.resolve g type = .ok e → Meeting d .branch a (.typed type) (.typed type) e
  | typedOpen {a : RegisterState} {g : Group} {type : Descriptor} {e : Draft} : a.group? = some g → a.isWide = type.isWide →
      d.resolve g type = .ok e → Meeting d .branch (.typed type) a (.typed type) e
  | lost {a b : RegisterState} : Unlike d a b → Meeting d .handler a b .unknown d

theorem conflict_meeting (done : arrival.conflict a b = .ok state) (unlike : Unlike d a b) : Meeting d arrival a b state d := by
  cases arrival with
  | handler =>
    cases done
    exact .lost unlike
  | branch => simp [Arrival.conflict] at done

theorem meetTypes_meeting (done : meetTypes s t arrival = .ok state) : Meeting d arrival (.typed s) (.typed t) state d := by
  unfold meetTypes at done
  split at done
  · rename_i equal
    cases done
    subst equal
    exact .same
  · rename_i differ
    split at done
    · rename_i same
      split at done
      · rename_i reference
        cases done
        exact .references reference (same ▸ reference)
      · rename_i value
        cases done
        have int := kind_int_of_differ differ same value
        exact .ints differ int (same ▸ int)
    · rename_i kinds
      exact conflict_meeting done (.kinds kinds)

theorem meetGroups_cases {rebuilt : Group → RegisterState} (done : meetGroups g h rebuilt arrival d = (state,e)) :
    (arrival = .handler ∧ d.root g ≠ d.root h ∧ state = .unknown ∧ e = d) ∨
    ((arrival = .branch ∨ d.root g = d.root h) ∧ state = rebuilt ⟨d.root g⟩ ∧ e = (d.union g h).2) := by
  unfold meetGroups at done
  split at done
  · rename_i lost
    simp only [Draft.same,Bool.and_eq_true,decide_eq_true_eq,Bool.not_eq_eq_eq_not,Bool.not_true,decide_eq_false_iff_not] at lost
    cases done
    exact .inl ⟨lost.1,lost.2,rfl,rfl⟩
  · rename_i kept
    simp only [Draft.union_id,Prod.mk.injEq] at done
    refine .inr ⟨?_,done.1.symm,done.2.symm⟩
    cases arrival with
    | branch => exact .inl rfl
    | handler => exact .inr (by simpa [Draft.same] using kept)

theorem meetOpen_cases (done : meetOpen g type arrival d = .ok (state,e)) :
    (arrival = .handler ∧ state = .unknown ∧ e = d) ∨ (arrival = .branch ∧ state = .typed type ∧ d.resolve g type = .ok e) := by
  cases arrival with
  | handler =>
    cases done
    exact .inl ⟨rfl,rfl,rfl⟩
  | branch =>
    simp only [meetOpen,bind_eq_ok,pure_eq_ok,Prod.mk.injEq] at done
    obtain ⟨m,resolved,rfl,rfl⟩ := done
    exact .inr ⟨rfl,rfl,resolved⟩

theorem clash_meeting (done : (do return (← arrival.conflict a b,d) : Except Fault _) = .ok (state,e)) (unlike : Unlike d a b) :
    Meeting d arrival a b state e := by
  simp only [bind_eq_ok,pure_eq_ok,Prod.mk.injEq] at done
  obtain ⟨_,conflict,rfl,rfl⟩ := done
  exact conflict_meeting conflict unlike

theorem meetBeside_meeting (unlike : Unlike d a b)
    (fits : a.isWide = b.isWide → ∀ e, d.resolve g type = .ok e → Meeting d .branch a b (.typed type) e)
    (done : (if a.isWide = b.isWide then meetOpen g type arrival d else do return (← arrival.conflict a b,d)) = .ok (state,e)) :
    Meeting d arrival a b state e := by
  split at done
  · rename_i width
    rcases meetOpen_cases done with ⟨rfl,rfl,rfl⟩ | ⟨rfl,rfl,resolved⟩
    · exact .lost unlike
    · exact fits width e resolved
  · exact clash_meeting done unlike

theorem meet_meeting (done : a.meet b arrival d = .ok (state,e)) : Meeting d arrival a b state e := by
  cases a with
  | unknown =>
    cases done
    exact .unknownLeft
  | typed s =>
    cases b with
    | unknown =>
      cases done
      exact .unknownRight
    | typed t =>
      simp only [meet,bind_eq_ok,pure_eq_ok,Prod.mk.injEq] at done
      obtain ⟨_,met,rfl,rfl⟩ := done
      exact meetTypes_meeting met
    | open32 h | open64 h =>
      exact meetBeside_meeting (.typedOpen rfl) (fun width _ resolved => .typedOpen rfl width.symm resolved) done
  | open32 g =>
    cases b with
    | unknown =>
      cases done
      exact .unknownRight
    | typed t => exact meetBeside_meeting (.openTyped rfl) (fun width _ resolved => .openTyped rfl width resolved) done
    | open32 h =>
      rcases meetGroups_cases (Except.ok.inj done) with ⟨rfl,apart,rfl,rfl⟩ | ⟨one,rfl,rfl⟩
      · exact .lost (.narrow apart)
      · exact .narrow one
    | open64 h => exact clash_meeting done .widths
  | open64 g =>
    cases b with
    | unknown =>
      cases done
      exact .unknownRight
    | typed t => exact meetBeside_meeting (.openTyped rfl) (fun width _ resolved => .openTyped rfl width resolved) done
    | open32 h => exact clash_meeting done .widthsBack
    | open64 h =>
      rcases meetGroups_cases (Except.ok.inj done) with ⟨rfl,apart,rfl,rfl⟩ | ⟨one,rfl,rfl⟩
      · exact .lost (.wide apart)
      · exact .wide one

theorem meetGroups_joins {rebuilt : Group → RegisterState} (one : arrival = .branch ∨ d.root g = d.root h) :
    meetGroups g h rebuilt arrival d = (rebuilt ⟨d.root g⟩,(d.union g h).2) := by
  have kept : (arrival = .handler && !d.same g h) = false := by
    rcases one with rfl | same
    · rfl
    · simp [Draft.same,same]
  simp [meetGroups,kept]

theorem Unlike.meet (unlike : Unlike d a b) : a.meet b .handler d = .ok (.unknown,d) := by
  cases unlike with
  | @kinds s t kinds =>
    have differ : s ≠ t := fun equal => kinds (equal ▸ rfl)
    simp only [RegisterState.meet,meetTypes,differ,kinds,if_false]
    rfl
  | narrow apart | wide apart => simp [RegisterState.meet,meetGroups,Draft.same,apart]
  | widths | widthsBack => rfl
  | @openTyped a g type group =>
    cases a <;> cases group <;> simp only [RegisterState.meet] <;> split <;> rfl
  | @typedOpen b g type group =>
    cases b <;> cases group <;> simp only [RegisterState.meet] <;> split <;> rfl

theorem Meeting.meet (meeting : Meeting d arrival a b state e) : a.meet b arrival d = .ok (state,e) := by
  cases meeting with
  | unknownLeft => rfl
  | unknownRight => cases a <;> rfl
  | same => simp [RegisterState.meet,meetTypes]
  | @references _ s t left right =>
    by_cases equal : s = t
    · simp [RegisterState.meet,meetTypes,equal]
    · simp [RegisterState.meet,meetTypes,equal,left,right]
  | ints differ left right => simp [RegisterState.meet,meetTypes,differ,left,right]
  | narrow one => exact congrArg Except.ok (meetGroups_joins one)
  | wide one => exact congrArg Except.ok (meetGroups_joins one)
  | @openTyped a g type e group width resolved =>
    have fits : a.isWide = (RegisterState.typed type).isWide := width
    cases a <;> cases group <;> simp [RegisterState.meet,fits,meetOpen,resolved]
  | @typedOpen b g type e group width resolved =>
    have fits : (RegisterState.typed type).isWide = b.isWide := width.symm
    cases b <;> cases group <;> simp [RegisterState.meet,fits,meetOpen,resolved]
  | lost unlike => exact unlike.meet

end RegisterState

namespace Frame

variable {P : Descriptor → Prop} {d e : Draft} {f incoming m : Frame} {arrival : Arrival} {r : Nat}

def Over (d : Draft) (f : Frame) : Prop := ∀ state ∈ f.registers.toList, ∀ g ∈ state.group?, d.Has g

instance (d : Draft) (f : Frame) : Decidable (f.Over d) := inferInstanceAs (Decidable (∀ state ∈ _, _))

theorem Over.valid (names : f.Over d) : f.Valid (fun _ => True) d := by
  intro r
  by_cases inside : r < f.size
  · have member : f.state r ∈ f.registers.toList := by
      simp only [state,Array.getD_eq_getD_getElem?,Array.getElem?_eq_getElem inside,Option.getD_some,Array.mem_toList_iff]
      exact Array.getElem_mem _
    cases found : f.state r with
    | unknown | typed type => trivial
    | open32 g | open64 g =>
      rw [found] at member
      exact names _ member g rfl
  · rw [state_outside (Nat.le_of_not_lt inside)]
    trivial

theorem get_inside (inside : r < f.size) : f.get d r = .ok ((f.state r).settled d) := by
  have found : f.registers[r]? = some (f.state r) := by
    rw [state,Array.getD_eq_getD_getElem?,Array.getElem?_eq_getElem inside,Option.getD_some]
  simp [get,found]

theorem get_outside (outside : f.size ≤ r) : f.get d r = refuse (.outsideFrame r f.size) := by
  have none : f.registers[r]? = none := Array.getElem?_eq_none outside
  simp [get,none]

theorem mergeAt_ok {n : Nat} {next : Frame × Draft} : mergeAt incoming arrival (f,d) n = .ok next ↔
    ∃ met e, ((f.state n).settled d).meet ((incoming.state n).settled d) arrival d = .ok (met,e) ∧
      next = (⟨f.registers.setIfInBounds n met⟩,e) := by
  simp only [mergeAt,bind_eq_ok,pure_eq_ok,within_eq_ok,Prod.exists]
  refine exists_congr fun met => exists_congr fun e => and_congr Iff.rfl eq_comm

structure MetAt (P : Descriptor → Prop) (f incoming : Frame) (arrival : Arrival) (d : Draft) (m : Frame) (e : Draft)
    (r : Nat) (before after : Draft) : Prop where
  first : Settles P d before
  meeting : RegisterState.Meeting before arrival ((f.state r).settled before) ((incoming.state r).settled before) (m.state r) after
  meets : RegisterState.Meets P before ((f.state r).settled before) ((incoming.state r).settled before) (m.state r) after
  last : Settles P after e

structure MetTo (P : Descriptor → Prop) (f incoming : Frame) (arrival : Arrival) (d : Draft) (n : Nat) (m : Frame) (e : Draft) : Prop where
  met : ∀ r < n, r < f.size → ∃ before after, MetAt P f incoming arrival d m e r before after
  rest : ∀ r, n ≤ r → m.state r = f.state r

theorem MetTo.step (sound : d.Sound P) (int : P .int) (coming : incoming.Valid P d) {n : Nat} {next : Frame × Draft}
    (so : MergedTo P f incoming d n m e) (before : MetTo P f incoming arrival d n m e)
    (done : mergeAt incoming arrival (m,e) n = .ok next) : MetTo P f incoming arrival d (n + 1) next.1 next.2 := by
  obtain ⟨met,k,meet,rfl⟩ := mergeAt_ok.mp done
  have soundE := so.settles.sound sound
  have here : (m.state n).Valid P e := so.valid n
  have there : (incoming.state n).Valid P e := (coming n).extends (so.settles.extends sound)
  have meets := RegisterState.meet_meets soundE int (RegisterState.settled_valid soundE here)
    (RegisterState.settled_valid soundE there) (fun _ => RegisterState.settled_open)
    (fun _ => RegisterState.settled_open) meet
  have updated : ∀ r, (⟨m.registers.setIfInBounds n met⟩ : Frame).state r =
      if n = r ∧ r < m.size then met else m.state r := fun r => state_set m n r met
  refine ⟨?_,?_⟩
  · intro r small inside
    rcases Nat.lt_succ_iff_lt_or_eq.mp small with earlier | rfl
    · obtain ⟨first,second,at_⟩ := before.met r earlier inside
      have kept := (updated r).trans (if_neg fun both => Nat.ne_of_gt earlier both.1)
      refine ⟨first,second,at_.first,?_,?_,at_.last.trans meets.settles⟩
      · rw [kept]
        exact at_.meeting
      · rw [kept]
        exact at_.meets
    · have written := (updated r).trans (if_pos ⟨rfl,Nat.lt_of_lt_of_eq inside so.size.symm⟩)
      refine ⟨e,k,so.settles,?_,?_,.refl⟩
      · rw [written,← before.rest r (Nat.le_refl _)]
        exact RegisterState.meet_meeting meet
      · rw [written,← before.rest r (Nat.le_refl _)]
        exact meets
  · intro r above
    rw [updated,if_neg fun both => Nat.ne_of_lt above both.1]
    exact before.rest r (Nat.le_of_succ_le above)

theorem merge_met_upto (sound : d.Sound P) (int : P .int) (valid : f.Valid P d) (coming : incoming.Valid P d) (n : Nat)
    {result : Frame × Draft} (done : (List.range n).foldlM (mergeAt incoming arrival) (f,d) = .ok result) :
    MetTo P f incoming arrival d n result.1 result.2 := by
  induction n generalizing result with
  | zero =>
    cases done
    exact ⟨fun r small => absurd small (Nat.not_lt_zero r),fun _ _ => rfl⟩
  | succ n ih =>
    rw [List.range_succ,foldlM_snoc_ok] at done
    obtain ⟨before,prior,last⟩ := done
    exact (ih prior).step sound int coming (merge_upto sound int valid coming n prior) last

theorem merge_ok (done : f.merge incoming arrival d = .ok (m,e)) :
    incoming.size = f.size ∧ (List.range f.size).foldlM (mergeAt incoming arrival) (f,d) = .ok (m,e) := by
  unfold merge at done
  split at done
  · simp at done
  · rename_i same
    exact ⟨Decidable.not_not.mp same,done⟩

theorem merge_met (sound : d.Sound P) (int : P .int) (valid : f.Valid P d) (coming : incoming.Valid P d)
    (done : f.merge incoming arrival d = .ok (m,e)) (inside : r < f.size) :
    ∃ before after, MetAt P f incoming arrival d m e r before after :=
  (merge_met_upto sound int valid coming f.size (merge_ok done).2).met r inside inside

end Frame

end Restack
