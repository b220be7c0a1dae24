import Mathlib
import Restack.Proofs.Draft.Matches
import Restack.Proofs.Frame.Absorbed

namespace Restack

open Draft (Settles Sound Extends Matches)

-- Two frames merged either way round. Register by register the drafts on both ways match, so what the one way can do
-- the other can do too, and what they know of a register differs in names alone.

namespace RegisterState

variable {P : Descriptor → Prop} {d e k m : Draft} {a b s t here there state : RegisterState} {arrival : Arrival} {g h : Group}

-- What the two ways know of a register that held `here` and `there`. Of two classes each way keeps the one it met first.
inductive Swaps (d e : Draft) (here there : RegisterState) : RegisterState → RegisterState → Prop where
  | unknown : Swaps d e here there .unknown .unknown
  | same {type : Descriptor} : Swaps d e here there (.typed type) (.typed type)
  | classes {s t : Descriptor} : here = .typed s → there = .typed t → s.kind? = some .reference → t.kind? = some .reference →
      Swaps d e here there (.typed s) (.typed t)
  | narrow {g h : Group} : d.root g = d.root h → e.root g = e.root h → Swaps d e here there (.open32 g) (.open32 h)
  | wide {g h : Group} : d.root g = d.root h → e.root g = e.root h → Swaps d e here there (.open64 g) (.open64 h)

theorem settled_matches (matched : Matches d e) (valid : a.Valid P d) : a.settled e = a.settled d := by
  cases a with
  | unknown | typed type => rfl
  | open32 g | open64 g => simp only [settled,group?,Option.bind_some,matched.types g valid]

theorem Valid.matches (matched : Matches d e) (valid : a.Valid P d) : a.Valid P e := by
  cases a with
  | unknown => trivial
  | typed type => exact valid
  | open32 g | open64 g => exact matched.has.mpr valid

theorem Swaps.settled_open (matched : Matches d e) (has : d.Has g) (same : e.root g = e.root h)
    (rebuilt : Group → RegisterState) (shape : ∀ k, (rebuilt k).group? = some k)
    (swaps : Swaps d e here there (rebuilt g) (rebuilt h)) : Swaps d e here there ((rebuilt g).settled d) ((rebuilt h).settled e) := by
  have equal : e.resolution? h = d.resolution? g := (Draft.resolution_of_root same).symm.trans (matched.types g has)
  cases known : d.resolution? g with
  | some type =>
    rw [settled_of_resolved (shape g) known,settled_of_resolved (shape h) (equal.trans known)]
    exact .same
  | none =>
    rw [settled_of_unresolved (shape g) known,settled_of_unresolved (shape h) (equal.trans known)]
    exact swaps

theorem Swaps.settled (matched : Matches d e) (valid : s.Valid P d) (swaps : Swaps d e here there s t) :
    Swaps d e (here.settled d) (there.settled d) (s.settled d) (t.settled e) := by
  cases swaps with
  | unknown => exact .unknown
  | same => exact .same
  | classes left right one two =>
    subst left right
    exact .classes rfl rfl one two
  | narrow left right => exact settled_open matched valid right .open32 (fun _ => rfl) (.narrow left right)
  | wide left right => exact settled_open matched valid right .open64 (fun _ => rfl) (.wide left right)

theorem Swaps.extends (matched : Matches d e) (grownD : Extends d m) (grownE : Extends e k) (left : s.Valid P d) (right : t.Valid P e)
    (swaps : Swaps d e here there s t) : Swaps m k here there s t := by
  cases swaps with
  | unknown => exact .unknown
  | same => exact .same
  | classes one two reference referenceToo => exact .classes one two reference referenceToo
  | narrow one two => exact .narrow (grownD.same _ _ left (matched.has.mp right) one) (grownE.same _ _ (matched.has.mpr left) right two)
  | wide one two => exact .wide (grownD.same _ _ left (matched.has.mp right) one) (grownE.same _ _ (matched.has.mpr left) right two)

theorem Swaps.later (matched : Matches d e) (soundD : d.Sound P) (soundE : e.Sound P) (grownD : Extends d m) (grownE : Extends e k)
    (after : Matches m k) (hereIn : here.Valid P d) (thereIn : there.Valid P d) (left : s.Valid P d) (right : t.Valid P e)
    (swaps : Swaps d e (here.settled d) (there.settled d) (s.settled d) (t.settled e)) :
    Swaps m k (here.settled m) (there.settled m) (s.settled m) (t.settled k) := by
  have validS := settled_valid soundD left
  have now := (swaps.extends matched grownD grownE validS (settled_valid soundE right)).settled after (validS.extends grownD)
  rwa [settled_extends grownD hereIn,settled_extends grownD thereIn,settled_extends grownD left,settled_extends grownE right] at now

theorem Unlike.swapped (matched : Matches d e) (left : a.Valid P d) (right : b.Valid P d) (unlike : Unlike d a b) : Unlike e b a := by
  cases unlike with
  | kinds differ => exact .kinds differ.symm
  | narrow apart => exact .narrow fun same => apart ((matched.same _ _ left right).mpr same.symm)
  | wide apart => exact .wide fun same => apart ((matched.same _ _ left right).mpr same.symm)
  | widths => exact .widthsBack
  | widthsBack => exact .widths
  | openTyped group => exact .typedOpen group
  | typedOpen group => exact .openTyped group

theorem Swaps.joined (matched : Matches d e) (left : d.Has g) (right : d.Has h)
    (after : Matches (d.union g h).2 (e.union h g).2) :
    (d.union g h).2.Has ⟨d.root g⟩ ∧ (d.union g h).2.root ⟨d.root g⟩ = (d.union g h).2.root ⟨e.root h⟩ ∧
      (e.union h g).2.root ⟨d.root g⟩ = (e.union h g).2.root ⟨e.root h⟩ := by
  have has : ∀ k, d.Has k → (d.union g h).2.Has k := fun k => (Draft.union_has d g h k).mpr
  have named := matched.left.has_root left
  have namedToo := matched.has.mp (matched.right.has_root (matched.has.mpr right))
  have one : (d.union g h).2.root ⟨d.root g⟩ = (d.union g h).2.root ⟨e.root h⟩ := by
    rw [Draft.union_same_iff named namedToo,matched.left.root_root left,matched.root_of_root right]
    exact .inr ⟨.inl rfl,.inr rfl⟩
  exact ⟨has _ named,one,(after.same _ _ (has _ named) (has _ namedToo)).mp one⟩

-- Whatever comes of two values in a draft, the same comes of them the other way round in a draft that matches it.
theorem Meeting.swapped (matched : Matches d e) (left : a.Valid P d) (right : b.Valid P d)
    (openLeft : ∀ g, a.group? = some g → d.resolution? g = none) (openRight : ∀ g, b.group? = some g → d.resolution? g = none)
    (meeting : Meeting d arrival a b s m) :
    ∃ t k, Meeting e arrival b a t k ∧ Matches m k ∧ Swaps m k (a.settled m) (b.settled m) (s.settled m) (t.settled k) := by
  cases meeting with
  | unknownLeft => exact ⟨_,_,.unknownRight,matched,.unknown⟩
  | unknownRight => exact ⟨_,_,.unknownLeft,matched,.unknown⟩
  | same => exact ⟨_,_,.same,matched,.same⟩
  | references one two => exact ⟨_,_,.references two one,matched,.classes rfl rfl one two⟩
  | ints differ one two => exact ⟨_,_,.ints (Ne.symm differ) two one,matched,.same⟩
  | @narrow _ g h one =>
    have after := matched.union left right (openLeft g rfl) (openRight h rfl)
    obtain ⟨has,here,there⟩ := Swaps.joined matched left right after
    refine ⟨_,_,.narrow (one.imp_right fun same => ((matched.same g h left right).mp same).symm),after,?_⟩
    exact Swaps.settled_open after has there .open32 (fun _ => rfl) (.narrow here there)
  | @wide _ g h one =>
    have after := matched.union left right (openLeft g rfl) (openRight h rfl)
    obtain ⟨has,here,there⟩ := Swaps.joined matched left right after
    refine ⟨_,_,.wide (one.imp_right fun same => ((matched.same g h left right).mp same).symm),after,?_⟩
    exact Swaps.settled_open after has there .open64 (fun _ => rfl) (.wide here there)
  | openTyped group width done =>
    obtain ⟨k,again,after⟩ := matched.resolve (left.has group) (openLeft _ group) done
    exact ⟨_,_,.typedOpen group width again,after,.same⟩
  | typedOpen group width done =>
    obtain ⟨k,again,after⟩ := matched.resolve (right.has group) (openRight _ group) done
    exact ⟨_,_,.openTyped group width again,after,.same⟩
  | lost unlike => exact ⟨_,_,.lost (unlike.swapped matched left right),matched,.unknown⟩

end RegisterState

namespace Frame

variable {P : Descriptor → Prop} {d e k m : Draft} {a b x y : Frame} {arrival : Arrival} {n : Nat}

structure SwappedTo (a b : Frame) (n : Nat) (x : Frame) (m : Draft) (y : Frame) (k : Draft) : Prop where
  matched : Matches m k
  swaps : ∀ r < n, r < a.size → RegisterState.Swaps m k ((a.state r).settled m) ((b.state r).settled m)
    ((x.state r).settled m) ((y.state r).settled k)

theorem SwappedTo.step (sound : d.Sound P) (int : P .int) (left : a.Valid P d) (right : b.Valid P d) (size : b.size = a.size)
    (one : MergedTo P a b d n x m) (two : MergedTo P b a d n y k) (restX : x.state n = a.state n) (restY : y.state n = b.state n)
    (before : SwappedTo a b n x m y k) {next : Frame × Draft} (done : mergeAt b arrival (x,m) n = .ok next) :
    ∃ other, mergeAt a arrival (y,k) n = .ok other ∧ SwappedTo a b (n + 1) next.1 next.2 other.1 other.2 := by
  obtain ⟨met,further,meet,rfl⟩ := mergeAt_ok.mp done
  have soundM := one.settles.sound sound
  have soundK := two.settles.sound sound
  have here := fun r => (left r).extends (one.settles.extends sound)
  have there := fun r => (right r).extends (one.settles.extends sound)
  have hereSettled := RegisterState.settled_valid soundM (here n)
  have thereSettled := RegisterState.settled_valid soundM (there n)
  rw [restX] at meet
  have meets := RegisterState.meet_meets soundM int hereSettled thereSettled (fun _ => RegisterState.settled_open)
    (fun _ => RegisterState.settled_open) meet
  obtain ⟨swapped,also,meeting,after,now⟩ := (RegisterState.meet_meeting meet).swapped before.matched hereSettled thereSettled
    (fun _ => RegisterState.settled_open) (fun _ => RegisterState.settled_open)
  -- The second way reads the same two values.
  rw [← RegisterState.settled_matches before.matched (here n),← RegisterState.settled_matches before.matched (there n)] at meeting
  have meetsToo := RegisterState.meet_meets soundK int (RegisterState.settled_valid soundK ((there n).matches before.matched))
    (RegisterState.settled_valid soundK ((here n).matches before.matched)) (fun _ => RegisterState.settled_open)
    (fun _ => RegisterState.settled_open) meeting.meet
  have grownM := meets.settles.extends soundM
  have grownK := meetsToo.settles.extends soundK
  rw [RegisterState.settled_extends grownM (here n),RegisterState.settled_extends grownM (there n)] at now
  refine ⟨(⟨y.registers.setIfInBounds n swapped⟩,also),?_,after,?_⟩
  · rw [mergeAt_ok,restY]
    exact ⟨_,_,meeting.meet,rfl⟩
  · intro r small inside
    have writtenX := state_set x n r met
    have writtenY := state_set y n r swapped
    rw [one.size] at writtenX
    rw [two.size,size] at writtenY
    simp only [writtenX,writtenY]
    rcases Nat.lt_succ_iff_lt_or_eq.mp small with earlier | rfl
    · have other : ¬(n = r ∧ r < a.size) := fun both => Nat.ne_of_gt earlier both.1
      rw [if_neg other,if_neg other]
      exact (before.swaps r earlier inside).later before.matched soundM soundK grownM grownK after (here r) (there r)
        (one.valid r) (two.valid r)
    · rw [if_pos ⟨rfl,inside⟩,if_pos ⟨rfl,inside⟩]
      exact now

theorem merge_swapped_upto (sound : d.Sound P) (int : P .int) (left : a.Valid P d) (right : b.Valid P d) (size : b.size = a.size)
    (n : Nat) {result : Frame × Draft} (done : (List.range n).foldlM (mergeAt b arrival) (a,d) = .ok result) :
    ∃ other, (List.range n).foldlM (mergeAt a arrival) (b,d) = .ok other ∧ SwappedTo a b n result.1 result.2 other.1 other.2 := by
  induction n generalizing result with
  | zero =>
    cases done
    exact ⟨(b,d),rfl,sound.toRooted.matches_self,fun r small => absurd small (Nat.not_lt_zero r)⟩
  | succ n ih =>
    rw [List.range_succ,foldlM_snoc_ok] at done
    obtain ⟨before,prior,last⟩ := done
    obtain ⟨beside,priorToo,so⟩ := ih prior
    have restX := (merge_met_upto sound int left right n prior).rest n (Nat.le_refl n)
    have restY := (merge_met_upto sound int right left n priorToo).rest n (Nat.le_refl n)
    obtain ⟨other,lastToo,step⟩ := so.step sound int left right size (merge_upto sound int left right n prior)
      (merge_upto sound int right left n priorToo) restX restY last
    refine ⟨other,?_,step⟩
    rw [List.range_succ,foldlM_snoc_ok]
    exact ⟨beside,priorToo,lastToo⟩

theorem merge_swapped (sound : d.Sound P) (int : P .int) (left : a.Valid P d) (right : b.Valid P d)
    (done : a.merge b arrival d = .ok (x,m)) : ∃ y k, b.merge a arrival d = .ok (y,k) ∧ SwappedTo a b a.size x m y k := by
  obtain ⟨size,run⟩ := merge_ok done
  obtain ⟨⟨y,k⟩,other,swapped⟩ := merge_swapped_upto sound int left right size a.size run
  refine ⟨y,k,?_,swapped⟩
  unfold merge
  rw [if_neg (by simp [size]),size]
  exact other

end Frame

end Restack
