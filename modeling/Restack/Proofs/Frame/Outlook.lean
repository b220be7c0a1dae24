import Mathlib
import Restack.Frame.Basic
import Restack.Proofs.Draft.Settles

namespace Restack

open Draft (Extends Sound)

-- What a register state says under a draft: nothing, a kind, or that the kind
-- will be that of a group. Two states with one outlook keep one outlook however
-- the groups are joined and typed later.

inductive Outlook where
  | nothing
  | kind (kind : Option Kind)
  | undecided (root : Nat)

namespace RegisterState

variable {P : Descriptor → Prop} {d e : Draft} {a b c : RegisterState} {g : Group}

def outlook (d : Draft) : RegisterState → Outlook
  | .unknown => .nothing
  | .typed type => .kind type.kind?
  | .open32 g | .open64 g =>
    match d.resolution? g with
    | some type => .kind type.kind?
    | none => .undecided (d.root g)

def Valid (P : Descriptor → Prop) (d : Draft) : RegisterState → Prop
  | .unknown => True
  | .typed type => P type
  | .open32 g | .open64 g => d.Has g

theorem Valid.has (valid : a.Valid P d) (group : a.group? = some g) : d.Has g := by
  cases a <;> cases group <;> exact valid

theorem valid_of_group (group : a.group? = some g) (has : d.Has g) : a.Valid P d := by
  cases a <;> cases group <;> exact has

theorem Valid.extends (grown : Extends d e) (valid : a.Valid P d) : a.Valid P e := by
  cases a with
  | unknown => trivial
  | typed type => exact valid
  | open32 g => exact grown.has g valid
  | open64 g => exact grown.has g valid

theorem outlook_open (group : a.group? = some g) : a.outlook d = (RegisterState.open32 g).outlook d := by
  cases a <;> cases group <;> rfl

theorem outlook_resolved (group : a.group? = some g) (known : d.resolution? g = some type) :
    a.outlook d = .kind type.kind? := by
  rw [outlook_open group]
  simp [outlook,known]

theorem outlook_unresolved (group : a.group? = some g) (isOpen : d.resolution? g = none) :
    a.outlook d = .undecided (d.root g) := by
  rw [outlook_open group]
  simp [outlook,isOpen]

-- Reading a state through the draft does not change what it says.

theorem settled_of_resolved (group : a.group? = some g) (known : d.resolution? g = some type) :
    a.settled d = .typed type := by
  simp [settled,group,known]

theorem settled_of_open (isOpen : ∀ g, a.group? = some g → d.resolution? g = none) : a.settled d = a := by
  unfold settled
  cases group : a.group? with
  | none => rfl
  | some g => simp [isOpen g group]

theorem outlook_settled (a : RegisterState) (d : Draft) : (a.settled d).outlook d = a.outlook d := by
  cases group : a.group? with
  | none => rw [settled_of_open (by simp [group])]
  | some g =>
    cases known : d.resolution? g with
    | none =>
      rw [settled_of_open]
      intro h equal
      rw [group] at equal
      cases equal
      exact known
    | some type => rw [settled_of_resolved group known,outlook_resolved group known]; rfl

theorem settled_open (group : (a.settled d).group? = some g) : d.resolution? g = none := by
  cases here : a.group? with
  | none =>
    rw [settled_of_open (by simp [here]),here] at group
    cases group
  | some h =>
    cases known : d.resolution? h with
    | some type =>
      rw [settled_of_resolved here known] at group
      cases group
    | none =>
      have same : a.settled d = a := by
        apply settled_of_open
        intro k equal
        rw [here] at equal
        cases equal
        exact known
      rw [same,here] at group
      cases group
      exact known

theorem settled_valid (sound : d.Sound P) (valid : a.Valid P d) : (a.settled d).Valid P d := by
  cases group : a.group? with
  | none => rwa [settled_of_open (by simp [group])]
  | some g =>
    cases known : d.resolution? g with
    | some type =>
      rw [settled_of_resolved group known]
      exact sound.types g type (valid.has group) known
    | none =>
      rwa [settled_of_open]
      intro h equal
      rw [group] at equal
      cases equal
      exact known

theorem outlook_extends (grown : Extends d e) (left : a.Valid P d) (right : b.Valid P d)
    (same : a.outlook d = b.outlook d) : a.outlook e = b.outlook e := by
  -- A state without a group says the same under every draft.
  have plain : ∀ s : RegisterState, s.group? = none → s.outlook d = s.outlook e := by
    intro s none
    cases s <;> first | rfl | cases none
  have typed : ∀ (s : RegisterState) (g : Group) (type : Descriptor), s.Valid P d → s.group? = some g →
      d.resolution? g = some type → s.outlook d = s.outlook e := by
    intro s g type valid group known
    rw [outlook_resolved group known,outlook_resolved group (grown.type g type (valid.has group) known)]
  cases ga : a.group? with
  | none =>
    cases gb : b.group? with
    | none => rw [← plain a ga,← plain b gb,same]
    | some g =>
      cases kb : d.resolution? g with
      | some type => rw [← plain a ga,← typed b g type right gb kb,same]
      | none =>
        rw [outlook_unresolved gb kb] at same
        cases a <;> first | cases same | cases ga
  | some g =>
    cases ka : d.resolution? g with
    | some type =>
      cases gb : b.group? with
      | none => rw [← typed a g type left ga ka,← plain b gb,same]
      | some h =>
        cases kb : d.resolution? h with
        | some other => rw [← typed a g type left ga ka,← typed b h other right gb kb,same]
        | none =>
          rw [outlook_resolved ga ka,outlook_unresolved gb kb] at same
          cases same
    | none =>
      rw [outlook_unresolved ga ka] at same
      cases gb : b.group? with
      | none => cases b <;> first | cases same | cases gb
      | some h =>
        cases kb : d.resolution? h with
        | some other =>
          rw [outlook_resolved gb kb] at same
          cases same
        | none =>
          rw [outlook_unresolved gb kb] at same
          have roots := grown.same g h (left.has ga) (right.has gb) (Outlook.undecided.inj same)
          rw [outlook_open ga,outlook_open gb]
          simp only [outlook,Draft.resolution_of_root roots,roots]

theorem outlook_told {known : Option Kind} (grown : Extends d e) (valid : a.Valid P d) (told : a.outlook d = .kind known) :
    a.outlook e = .kind known := by
  cases group : a.group? with
  | none => cases a <;> first | exact told | cases group
  | some g =>
    cases found : d.resolution? g with
    | none =>
      rw [outlook_unresolved group found] at told
      cases told
    | some type =>
      rw [outlook_resolved group found] at told
      rw [outlook_resolved group (grown.type g type (valid.has group) found),told]

def Below (d : Draft) (a b : RegisterState) : Prop := a = .unknown ∨ a.outlook d = b.outlook d

theorem Below.refl (d : Draft) (a : RegisterState) : Below d a a := .inr rfl

theorem Below.trans (first : Below d a b) (second : Below d b c) : Below d a c := by
  rcases first with nothing | same
  · exact .inl nothing
  · rcases second with rfl | next
    · cases a with
      | unknown => exact .inl rfl
      | typed type => cases same
      | open32 g =>
        simp only [outlook] at same
        split at same <;> cases same
      | open64 g =>
        simp only [outlook] at same
        split at same <;> cases same
    · exact .inr (same.trans next)

theorem Below.extends (grown : Extends d e) (left : a.Valid P d) (right : b.Valid P d) (below : Below d a b) :
    Below e a b := by
  rcases below with nothing | same
  · exact .inl nothing
  · exact .inr (outlook_extends grown left right same)

end RegisterState

end Restack
