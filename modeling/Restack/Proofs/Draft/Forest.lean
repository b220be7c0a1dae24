import Mathlib
import Restack.Proofs.Draft.History

namespace Restack.Draft

-- Groups as trees of links. Joining links one root under another, and a link may be shortened to lead to
-- the root at once, whenever and as often as one likes. Climbing ends, and ends at the root of the draft.
-- A vector of links that is climbed and shortened by loops is one of these forests at any time.

variable {events : Array Event} {calls : List Call} {c : Call} {d e : Draft} {a b g : Group} {parent : Nat → Nat} {i j r s : Nat}

inductive Climbs (parent : Nat → Nat) : Nat → Nat → Prop where
  | root {r : Nat} : parent r = r → Climbs parent r r
  | up {i r : Nat} : parent i ≠ i → Climbs parent (parent i) r → Climbs parent i r

inductive Forest : List Call → (Nat → Nat) → Prop where
  | start : Forest [] id
  | call {calls : List Call} {parent : Nat → Nat} {c : Call} : Forest calls parent → (∀ a b, c ≠ .union a b) →
      Forest (calls ++ [c]) parent
  | link {calls : List Call} {parent : Nat → Nat} {a b : Group} {r s : Nat} : Forest calls parent →
      Climbs parent a.id r → Climbs parent b.id s → Forest (calls ++ [.union a b]) (Function.update parent s r)
  | shorten {calls : List Call} {parent : Nat → Nat} {i r : Nat} : Forest calls parent → Climbs parent i r →
      Forest calls (Function.update parent i r)

theorem Climbs.fixed (climbs : Climbs parent i r) : parent r = r := by
  induction climbs with
  | root self => exact self
  | up _ _ ih => exact ih

theorem Climbs.unique (first : Climbs parent i r) (second : Climbs parent i s) : r = s := by
  induction first with
  | root self =>
    cases second with
    | root _ => rfl
    | up moves _ => exact absurd self moves
  | up moves _ ih =>
    cases second with
    | root self => exact absurd self moves
    | up _ above => exact ih above

theorem Climbs.step (leads : parent i = j) (moves : j ≠ i) (above : Climbs parent j r) : Climbs parent i r := by
  subst leads
  exact .up moves above

theorem Climbs.shorten (climbs : Climbs parent i r) (short : Climbs parent j s) : Climbs (Function.update parent j s) i r := by
  induction climbs with
  | @root i self =>
    by_cases here : i = j
    · subst here
      obtain rfl := short.unique (.root self)
      exact .root (by simp)
    · exact .root (by simpa [here] using self)
  | @up i r moves above ih =>
    by_cases here : i = j
    · subst here
      obtain rfl := short.unique (.up moves above)
      have other : s ≠ i := fun equal => moves (equal ▸ short.fixed)
      refine .step (by simp) other (.root ?_)
      simpa [other] using short.fixed
    · refine .step (by simp [here]) moves ih

theorem Climbs.link (climbs : Climbs parent i j) (kept : parent r = r) (gone : parent s = s) (apart : r ≠ s) :
    Climbs (Function.update parent s r) i (if j = s then r else j) := by
  induction climbs with
  | @root j self =>
    by_cases here : j = s
    · subst here
      rw [if_pos rfl]
      exact .step (by simp) apart (.root (by simpa [apart] using kept))
    · rw [if_neg here]
      exact .root (by simpa [here] using self)
  | @up i j moves above ih =>
    have other : i ≠ s := fun equal => moves (equal ▸ gone)
    exact .step (by simp [other]) moves ih

structure Linked (parent : Nat → Nat) (d : Draft) : Prop where
  climbs : ∀ g, d.Has g → Climbs parent g.id (d.root g)
  beyond : ∀ i, d.cells.size ≤ i → parent i = i

theorem linked_start (events : Array Event) : Linked id { events } := by
  refine ⟨?_,fun _ _ => rfl⟩
  intro g has
  simp [Has] at has

theorem Linked.call (before : Linked parent d) (plain : ∀ a b, c ≠ .union a b) (done : c.run d = .ok e) : Linked parent e := by
  refine ⟨?_,?_⟩
  · intro g has
    rcases Call.run_fresh done has with old | ⟨last,self⟩
    · rw [Call.run_root plain done old]
      exact before.climbs g old
    · rw [self,last]
      exact .root (before.beyond _ (Nat.le_refl _))
  · intro i outside
    refine before.beyond i (Nat.le_of_not_lt fun inside => ?_)
    have still : e.Has ⟨i⟩ := Call.run_has done inside
    exact Nat.not_lt_of_le outside still

theorem Linked.union (before : Linked parent d) (rooted : d.Rooted) (left : d.Has a) (right : d.Has b) :
    Linked (Function.update parent (d.root b) (d.root a)) (d.union a b).2 := by
  have kept := (before.climbs a left).fixed
  have gone := (before.climbs b right).fixed
  by_cases same : d.root a = d.root b
  · rw [union_of_same same,same,show Function.update parent (d.root b) (d.root b) = parent by simpa using gone.symm]
    exact before
  · refine ⟨?_,?_⟩
    · intro g has
      have old : d.Has g := (union_has d a b g).mp has
      rw [union_root old]
      exact (before.climbs g old).link kept gone same
    · intro i outside
      rw [union_size] at outside
      have other : i ≠ d.root b := fun equal => Nat.not_lt_of_le outside (equal ▸ rooted.root_bound right)
      simpa [other] using before.beyond i outside

theorem Linked.shorten (before : Linked parent d) (short : Climbs parent i r) : Linked (Function.update parent i r) d := by
  refine ⟨fun g has => (before.climbs g has).shorten short,?_⟩
  intro j outside
  have self := before.beyond j outside
  exact (Climbs.root self).shorten short |>.fixed

theorem Forest.linked (forest : Forest calls parent) (ran : History events calls d) : Linked parent d := by
  induction forest generalizing d with
  | start =>
    cases ran.start
    exact linked_start events
  | call _ plain ih =>
    obtain ⟨m,before,-,done⟩ := ran.snoc
    exact (ih before).call plain done
  | link _ left right ih =>
    obtain ⟨m,before,⟨hasA,hasB,-⟩,done⟩ := ran.snoc
    cases done
    have linked := ih before
    rw [left.unique (linked.climbs _ hasA),right.unique (linked.climbs _ hasB)]
    exact linked.union before.partitioned.rooted hasA hasB
  | shorten _ short ih => exact (ih ran).shorten short

-- The loops over a vector of links, round by round. They may run forever or leave the vector, so that it is something to be
-- shown that they give a result.

def climbRound (links : Array Nat) : Nat →. Nat ⊕ Nat := fun i => do
  let above ← Part.ofOption links[i]?
  return if above = i then .inl i else .inr above

def climb (links : Array Nat) : Nat →. Nat := (climbRound links).fix

def shortenRound (root : Nat) : Array Nat × Nat →. Array Nat ⊕ Array Nat × Nat := fun (links,i) => do
  let above ← Part.ofOption links[i]?
  return if above = root then .inl links else .inr (links.setIfInBounds i root,above)

def shortenPath (root : Nat) : Array Nat × Nat →. Array Nat := (shortenRound root).fix

def find (links : Array Nat) (g : Group) : Part (Nat × Array Nat) := do
  let root ← climb links g.id
  return (root,← shortenPath root (links,g.id))

-- What a call does to the links. Only the question for a type shortens none.
def Call.link (links : Array Nat) : Call → Part (Array Nat)
  | .group _ => return links.push links.size
  | .addSite g _ | .resolve g _ => do
    let (_,links) ← find links g
    return links
  | .union a b => do
    let (kept,links) ← find links a
    let (gone,links) ← find links b
    return if kept = gone then links else links.setIfInBounds gone kept
  | .same a b => do
    let (_,links) ← find links a
    let (_,links) ← find links b
    return links
  | .resolution g => do
    let _ ← climb links g.id
    return links
  | .push _ => return links

def linksOf (calls : List Call) : Part (Array Nat) := calls.foldlM Call.link #[]

def parentOf (links : Array Nat) (i : Nat) : Nat := links[i]?.getD i

variable {links : Array Nat} {events : Array Event}

theorem getElem?_parentOf (inside : i < links.size) : links[i]? = some (parentOf links i) := by
  simp [parentOf,inside]

theorem parentOf_set (inside : i < links.size) (r : Nat) :
    parentOf (links.setIfInBounds i r) = Function.update (parentOf links) i r := by
  funext j
  by_cases here : j = i
  · subst here
    simp [parentOf,inside]
  · simp [parentOf,here,Array.getElem?_setIfInBounds_ne (Ne.symm here)]

theorem parentOf_push : parentOf (links.push links.size) = parentOf links := by
  funext j
  rcases Nat.lt_trichotomy j links.size with inside | rfl | beyond
  · simp [parentOf,Array.getElem?_push,Nat.ne_of_lt inside]
  · simp [parentOf]
  · simp [parentOf,Array.getElem?_push,Nat.ne_of_gt beyond]

-- Links that lead out of the vector lead nowhere, so one that ends inside stays inside.
theorem Climbs.inside (climbs : Climbs (parentOf links) i r) (ends : r < links.size) : i < links.size := by
  cases climbs with
  | root _ => exact ends
  | up moves _ =>
    by_contra beyond
    exact moves (by simp [parentOf,beyond])

theorem climb_of_climbs (climbs : Climbs (parentOf links) i r) (ends : r < links.size) : climb links i = Part.some r := by
  have inside := climbs.inside ends
  induction climbs with
  | @root r self =>
    have stops : Sum.inl r ∈ climbRound links r := by simp [climbRound,getElem?_parentOf inside,self]
    exact Part.eq_some_iff.mpr (PFun.fix_stop stops)
  | @up i r moves above ih =>
    have goes : Sum.inr (parentOf links i) ∈ climbRound links i := by simp [climbRound,getElem?_parentOf inside,moves]
    exact (PFun.fix_fwd_eq goes).trans (ih ends (above.inside ends))

-- Links that were shortened one after the other.
inductive Shortens (parent : Nat → Nat) : (Nat → Nat) → Prop where
  | refl : Shortens parent parent
  | step {q : Nat → Nat} {i r : Nat} : Shortens parent q → Climbs q i r → Shortens parent (Function.update q i r)

theorem Shortens.trans {q t : Nat → Nat} (first : Shortens parent q) (second : Shortens q t) : Shortens parent t := by
  induction second with
  | refl => exact first
  | step _ short ih => exact .step ih short

theorem Forest.shortens {q : Nat → Nat} (forest : Forest calls parent) (shortens : Shortens parent q) : Forest calls q := by
  induction shortens with
  | refl => exact forest
  | step _ short ih => exact .shorten ih short

theorem shortenPath_last (inside : i < links.size) (last : parentOf links i = r) :
    shortenPath r (links,i) = Part.some links := by
  have stops : Sum.inl links ∈ shortenRound r (links,i) := by simp [shortenRound,getElem?_parentOf inside,last]
  exact Part.eq_some_iff.mpr (PFun.fix_stop stops)

-- Shortening goes by the links as they were, since those that it changed lead to the root.
theorem shortenPath_of_climbs (climbs : Climbs parent i r) (agrees : ∀ j, parentOf links j = parent j ∨ parentOf links j = r)
    (now : Climbs (parentOf links) i r) (ends : r < links.size) :
    ∃ short, shortenPath r (links,i) = Part.some short ∧ short.size = links.size ∧ Shortens (parentOf links) (parentOf short) := by
  induction climbs generalizing links with
  | @root r self =>
    have last : parentOf links r = r := (agrees r).elim (·.trans self) id
    exact ⟨links,shortenPath_last ends last,rfl,.refl⟩
  | @up i r moves above ih =>
    have inside := now.inside ends
    by_cases last : parentOf links i = r
    · exact ⟨links,shortenPath_last inside last,rfl,.refl⟩
    · have same : parentOf links i = parent i := (agrees i).resolve_right last
      have onward : Climbs (parentOf links) (parent i) r := by
        cases now with
        | root self => exact absurd self last
        | up _ above => exact same ▸ above
      have step := parentOf_set inside r
      have agree : ∀ j, parentOf (links.setIfInBounds i r) j = parent j ∨ parentOf (links.setIfInBounds i r) j = r := by
        intro j
        rw [step]
        by_cases here : j = i
        · exact .inr (by simp [here])
        · simpa [here] using agrees j
      obtain ⟨short,done,size,shortens⟩ := ih agree (by rw [step]; exact onward.shorten now) (by simpa using ends)
      refine ⟨short,?_,by simpa using size,?_⟩
      · have goes : Sum.inr (links.setIfInBounds i r,parent i) ∈ shortenRound r (links,i) := by
          have further : parent i ≠ r := same ▸ last
          simp [shortenRound,getElem?_parentOf inside,same,further]
        exact (PFun.fix_fwd_eq goes).trans done
      · rw [step] at shortens
        exact (Shortens.step .refl now).trans shortens

structure Mirrors (calls : List Call) (d : Draft) (links : Array Nat) : Prop where
  size : links.size = d.cells.size
  forest : Forest calls (parentOf links)

theorem Mirrors.climbs (mirrors : Mirrors calls d links) (ran : History events calls d) (has : d.Has g) :
    Climbs (parentOf links) g.id (d.root g) ∧ d.root g < links.size := by
  refine ⟨(mirrors.forest.linked ran).climbs g has,?_⟩
  rw [mirrors.size]
  exact ran.partitioned.rooted.root_bound has

theorem Mirrors.find (mirrors : Mirrors calls d links) (ran : History events calls d) (has : d.Has g) :
    ∃ short, find links g = Part.some (d.root g,short) ∧ Shortens (parentOf links) (parentOf short) ∧ Mirrors calls d short := by
  obtain ⟨climbs,ends⟩ := mirrors.climbs ran has
  obtain ⟨short,done,size,shortens⟩ := shortenPath_of_climbs climbs (fun _ => .inl rfl) climbs ends
  refine ⟨short,?_,shortens,size.trans mirrors.size,mirrors.forest.shortens shortens⟩
  simp [Draft.find,climb_of_climbs climbs ends,done]

theorem Mirrors.call (mirrors : Mirrors calls d links) (ran : History events calls d) (allowed : c.Allowed calls d)
    (done : c.run d = .ok e) : ∃ after, c.link links = Part.some after ∧ Mirrors (calls ++ [c]) e after := by
  cases c with
  | group wide =>
    cases done
    refine ⟨_,rfl,by simp [mirrors.size],?_⟩
    rw [parentOf_push]
    exact .call mirrors.forest (by simp)
  | addSite g site =>
    cases done
    obtain ⟨short,found,-,after⟩ := mirrors.find ran allowed.1
    exact ⟨short,by simp [Call.link,found],by simp [after.size],.call after.forest (by simp)⟩
  | union a b =>
    cases done
    obtain ⟨one,first,-,middle⟩ := mirrors.find ran allowed.1
    obtain ⟨two,second,-,after⟩ := middle.find ran allowed.2.1
    obtain ⟨left,-⟩ := after.climbs ran allowed.1
    obtain ⟨right,inside⟩ := after.climbs ran allowed.2.1
    have linked := Forest.link after.forest left right
    refine ⟨if d.root a = d.root b then two else two.setIfInBounds (d.root b) (d.root a),by simp [Call.link,first,second],?_⟩
    split
    · rename_i same
      rw [← same,show Function.update (parentOf two) (d.root a) (d.root a) = parentOf two by simpa using left.fixed.symm] at linked
      exact ⟨by simp [after.size],linked⟩
    · rw [← parentOf_set inside] at linked
      exact ⟨by simp [after.size],linked⟩
  | same a b =>
    cases done
    obtain ⟨one,first,-,middle⟩ := mirrors.find ran allowed.1
    obtain ⟨two,second,-,after⟩ := middle.find ran allowed.2
    exact ⟨two,by simp [Call.link,first,second],after.size,.call after.forest (by simp)⟩
  | resolution g =>
    cases done
    obtain ⟨climbs,ends⟩ := mirrors.climbs ran allowed
    exact ⟨links,by simp [Call.link,climb_of_climbs climbs ends],mirrors.size,.call mirrors.forest (by simp)⟩
  | resolve g type =>
    obtain ⟨short,found,-,after⟩ := mirrors.find ran allowed
    refine ⟨short,by simp [Call.link,found],?_,.call after.forest (by simp)⟩
    rcases resolve_open_or_same done with isOpen | rfl
    · rw [resolve_size isOpen done,after.size]
    · exact after.size
  | push event =>
    cases done
    exact ⟨links,rfl,mirrors.size,.call mirrors.forest (by simp)⟩

theorem History.mirrored (ran : History events calls d) : ∃ links, linksOf calls = Part.some links ∧ Mirrors calls d links := by
  unfold History at ran
  induction ran with
  | refl => exact ⟨#[],rfl,rfl,.start⟩
  | call before allowed done ih =>
    obtain ⟨links,led,mirrors⟩ := ih
    obtain ⟨after,step,next⟩ := mirrors.call before allowed done
    refine ⟨after,?_,next⟩
    simp [linksOf,List.foldlM_append,show List.foldlM Call.link #[] _ = Part.some links from led,step]

end Restack.Draft
