import Mathlib
import Restack.Proofs.Frame.Meeting

namespace Restack

open Draft (Settles Sound Extends)

-- What a merged frame says of a register, it says as long as the groups are settled further, and meeting one of the
-- two frames again says nothing new.

namespace RegisterState

variable {P : Descriptor → Prop} {d e : Draft} {a b state : RegisterState} {arrival : Arrival}

-- The first state is already what is known where both meet.
inductive Absorbs (d : Draft) : RegisterState → RegisterState → Prop where
  | unknown {b : RegisterState} : Absorbs d .unknown b
  | same {type : Descriptor} : Absorbs d (.typed type) (.typed type)
  | references {s t : Descriptor} : s.kind? = some .reference → t.kind? = some .reference → Absorbs d (.typed s) (.typed t)
  | ints {t : Descriptor} : t.kind? = some .int → Absorbs d (.typed .int) (.typed t)
  | narrow {g h : Group} : d.root g = d.root h → Absorbs d (.open32 g) (.open32 h)
  | wide {g h : Group} : d.root g = d.root h → Absorbs d (.open64 g) (.open64 h)

-- An open value named by the root of its group.
def atRoot (d : Draft) : RegisterState → RegisterState
  | .open32 g => .open32 ⟨d.root g⟩
  | .open64 g => .open64 ⟨d.root g⟩
  | state => state

theorem settled_of_unresolved (group : a.group? = some g) (isOpen : d.resolution? g = none) : a.settled d = a := by
  apply settled_of_open
  intro h equal
  rw [group] at equal
  cases equal
  exact isOpen

theorem settled_extends (grown : Extends d e) (valid : a.Valid P d) : (a.settled d).settled e = a.settled e := by
  cases group : a.group? with
  | none => rw [settled_of_open (a := a) (d := d) (by simp [group])]
  | some g =>
    cases known : d.resolution? g with
    | none => rw [settled_of_unresolved group known]
    | some type =>
      rw [settled_of_resolved group known,settled_of_resolved group (grown.type g type (valid.has group) known)]
      rfl

theorem Absorbs.settled_open (same : d.root g = d.root h) (rebuilt : Group → RegisterState) (shape : ∀ k, (rebuilt k).group? = some k)
    (absorbs : Absorbs d (rebuilt g) (rebuilt h)) : Absorbs d ((rebuilt g).settled d) ((rebuilt h).settled d) := by
  have equal := Draft.resolution_of_root same
  cases known : d.resolution? g with
  | some type =>
    rw [settled_of_resolved (shape g) known,settled_of_resolved (shape h) (equal ▸ known)]
    exact .same
  | none =>
    rw [settled_of_unresolved (shape g) known,settled_of_unresolved (shape h) (equal ▸ known)]
    exact absorbs

theorem Absorbs.settled (absorbs : Absorbs d a b) : Absorbs d (a.settled d) (b.settled d) := by
  cases absorbs with
  | unknown => exact .unknown
  | same => exact .same
  | references left right => exact .references left right
  | ints right => exact .ints right
  | narrow same => exact settled_open same .open32 (fun _ => rfl) (.narrow same)
  | wide same => exact settled_open same .open64 (fun _ => rfl) (.wide same)

theorem Absorbs.extends (grown : Extends d e) (left : a.Valid P d) (right : b.Valid P d) (absorbs : Absorbs d a b) :
    Absorbs e a b := by
  cases absorbs with
  | unknown => exact .unknown
  | same => exact .same
  | references one two => exact .references one two
  | ints int => exact .ints int
  | narrow same => exact .narrow (grown.same _ _ left right same)
  | wide same => exact .wide (grown.same _ _ left right same)

theorem Absorbs.later (grown : Extends d e) (sound : d.Sound P) (left : a.Valid P d) (right : b.Valid P d)
    (absorbs : Absorbs d (a.settled d) (b.settled d)) : Absorbs e (a.settled e) (b.settled e) := by
  rw [← settled_extends grown left,← settled_extends grown right]
  exact (absorbs.extends grown (settled_valid sound left) (settled_valid sound right)).settled

theorem absorbs_resolved (rooted : d.Rooted) (has : d.Has g) (isOpen : d.resolution? g = none) (group : a.group? = some g)
    (done : d.resolve g type = .ok e) : Absorbs e (.typed type) (a.settled e) := by
  have known := Draft.resolve_resolution rooted isOpen done has
  rw [if_pos rfl] at known
  rw [settled_of_resolved group known]
  exact .same

theorem union_roots (rooted : d.Rooted) (left : d.Has g) (right : d.Has h) :
    (d.union g h).2.root ⟨d.root g⟩ = (d.union g h).2.root g ∧ (d.union g h).2.root g = (d.union g h).2.root h := by
  have self := rooted.root_root left
  rw [Draft.union_root (rooted.has_root left),Draft.union_root left,Draft.union_root right,self,if_pos rfl]
  refine ⟨rfl,?_⟩
  split <;> rfl

theorem Meeting.absorbs (rooted : d.Rooted) (left : a.Valid P d) (right : b.Valid P d)
    (openLeft : ∀ g, a.group? = some g → d.resolution? g = none) (openRight : ∀ g, b.group? = some g → d.resolution? g = none)
    (meeting : Meeting d arrival a b state e) :
    Absorbs e (state.settled e) (a.settled e) ∧ Absorbs e (state.settled e) (b.settled e) := by
  cases meeting with
  | unknownLeft | unknownRight | lost => exact ⟨.unknown,.unknown⟩
  | same => exact ⟨.same,.same⟩
  | references one two => exact ⟨.same,.references one two⟩
  | ints _ one two => exact ⟨.ints one,.ints two⟩
  | narrow =>
    obtain ⟨root,same⟩ := union_roots rooted left right
    exact ⟨(Absorbs.narrow root).settled,(Absorbs.narrow (root.trans same)).settled⟩
  | wide =>
    obtain ⟨root,same⟩ := union_roots rooted left right
    exact ⟨(Absorbs.wide root).settled,(Absorbs.wide (root.trans same)).settled⟩
  | openTyped group _ done => exact ⟨absorbs_resolved rooted (left.has group) (openLeft _ group) group done,.same⟩
  | typedOpen group _ done => exact ⟨.same,absorbs_resolved rooted (right.has group) (openRight _ group) group done⟩

theorem Absorbs.meet (absorbs : Absorbs d a b) (arrival : Arrival) : a.meet b arrival d = .ok (a.atRoot d,d) := by
  apply Meeting.meet
  cases absorbs with
  | unknown => exact .unknownLeft
  | same => exact .same
  | references left right => exact .references left right
  | @ints t right =>
    by_cases equal : .int = t
    · subst equal
      exact .same
    · exact .ints equal rfl right
  | @narrow g h same =>
    have meeting : Meeting d arrival (.open32 g) (.open32 h) (.open32 ⟨d.root g⟩) (d.union g h).2 := .narrow (.inr same)
    rwa [Draft.union_of_same same] at meeting
  | @wide g h same =>
    have meeting : Meeting d arrival (.open64 g) (.open64 h) (.open64 ⟨d.root g⟩) (d.union g h).2 := .wide (.inr same)
    rwa [Draft.union_of_same same] at meeting

theorem atRoot_settled (sound : d.Sound P) (valid : a.Valid P d) :
    ((a.settled d).atRoot d).settled d = (a.settled d).atRoot d := by
  have named : ∀ g, d.Has g → d.resolution? g = none → d.resolution? ⟨d.root g⟩ = none := fun g has isOpen =>
    (Draft.resolution_of_root (sound.root_root has)).trans isOpen
  have valid := settled_valid sound valid
  have isOpen : ∀ g, (a.settled d).group? = some g → d.resolution? g = none := fun _ => RegisterState.settled_open
  cases found : a.settled d with
  | unknown => rfl
  | typed type => rfl
  | open32 g =>
    rw [found] at valid isOpen
    exact settled_of_unresolved rfl (named g valid (isOpen g rfl))
  | open64 g =>
    rw [found] at valid isOpen
    exact settled_of_unresolved rfl (named g valid (isOpen g rfl))

end RegisterState

namespace Frame

variable {P : Descriptor → Prop} {d e : Draft} {f incoming m : Frame} {arrival : Arrival} {r : Nat}

theorem merge_absorbs (sound : d.Sound P) (int : P .int) (valid : f.Valid P d) (coming : incoming.Valid P d)
    (done : f.merge incoming arrival d = .ok (m,e)) (r : Nat) :
    RegisterState.Absorbs e ((m.state r).settled e) ((f.state r).settled e) ∧
      RegisterState.Absorbs e ((m.state r).settled e) ((incoming.state r).settled e) := by
  by_cases inside : r < f.size
  · obtain ⟨before,after,at_⟩ := merge_met sound int valid coming done inside
    have soundB := at_.first.sound sound
    have soundA := at_.meets.settles.sound soundB
    have toB := at_.first.extends sound
    have toA := at_.meets.settles.extends soundB
    have toE := at_.last.extends soundA
    have here := (valid r).extends toB
    have there := (coming r).extends toB
    obtain ⟨left,right⟩ := at_.meeting.absorbs soundB.toRooted (RegisterState.settled_valid soundB here)
      (RegisterState.settled_valid soundB there) (fun _ => RegisterState.settled_open) (fun _ => RegisterState.settled_open)
    rw [RegisterState.settled_extends toA here] at left
    rw [RegisterState.settled_extends toA there] at right
    exact ⟨left.later toE soundA at_.meets.valid (here.extends toA),right.later toE soundA at_.meets.valid (there.extends toA)⟩
  · have outside : m.size ≤ r := by
      rw [(merge_merged sound int valid coming done).size]
      exact Nat.le_of_not_lt inside
    rw [state_outside outside]
    exact ⟨.unknown,.unknown⟩

theorem merge_absorbed (size : incoming.size = m.size)
    (absorbs : ∀ r, RegisterState.Absorbs e ((m.state r).settled e) ((incoming.state r).settled e)) (arrival : Arrival) :
    ∃ again, m.merge incoming arrival e = .ok (again,e) ∧ again.size = m.size ∧
      ∀ r < m.size, again.state r = ((m.state r).settled e).atRoot e := by
  have upto : ∀ n, ∃ x, (List.range n).foldlM (mergeAt incoming arrival) (m,e) = .ok (x,e) ∧ x.size = m.size ∧
      ∀ r, x.state r = if r < n ∧ r < m.size then ((m.state r).settled e).atRoot e else m.state r := by
    intro n
    induction n with
    | zero => exact ⟨m,rfl,rfl,fun r => by simp⟩
    | succ n ih =>
      obtain ⟨x,prior,same,states⟩ := ih
      have here : x.state n = m.state n := by rw [states,if_neg fun both => Nat.lt_irrefl n both.1]
      have met := (absorbs n).meet arrival
      rw [← here] at met
      refine ⟨⟨x.registers.setIfInBounds n (((x.state n).settled e).atRoot e)⟩,?_,?_,?_⟩
      · rw [List.range_succ,foldlM_snoc_ok]
        exact ⟨(x,e),prior,mergeAt_ok.mpr ⟨_,e,met,rfl⟩⟩
      · simpa [Frame.size] using same
      · intro r
        rw [state_set,here,same,states]
        by_cases equal : n = r
        · subst equal
          by_cases inside : n < m.size
          · simp [inside]
          · simp [inside]
        · have order : r < n + 1 ↔ r < n := by omega
          simp [equal,order]
  obtain ⟨again,done,same,states⟩ := upto m.size
  refine ⟨again,?_,same,?_⟩
  · unfold merge
    rw [if_neg (by simp [size])]
    exact done
  · intro r inside
    rw [states,if_pos ⟨inside,inside⟩]

end Frame

end Restack
