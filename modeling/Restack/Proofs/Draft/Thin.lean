import Mathlib
import Restack.Frame.Basic
import Restack.Proofs.Draft.Sites

namespace Restack

-- A draft without some of its labels. Sites are places among the events, so a site moves up by the
-- number of labels that are left out before it. The groups and their types stay as they are, and
-- what is done to a draft can be done to the thinned draft.

def Event.isKept (keep : Label → Bool) : Event → Bool
  | .insn _ => true
  | .label l => keep l

-- How many of the first events are left out.
def leftOut (keep : Label → Bool) (events : List Event) (n : Nat) : Nat :=
  (events.take n).countP fun event => !event.isKept keep

variable {keep : Label → Bool} {events : List Event} {event : Event} {n : Nat} {i j : Insn}

theorem leftOut_snoc (kept : event.isKept keep = true) (n : Nat) :
    leftOut keep (events ++ [event]) n = leftOut keep events n := by
  unfold leftOut
  rw [List.take_append,List.countP_append,Nat.add_eq_left,List.countP_eq_zero]
  intro other member
  obtain rfl := List.mem_singleton.mp (List.mem_of_mem_take member)
  simp [kept]

theorem leftOut_before (inside : n ≤ events.length) (event : Event) :
    leftOut keep (events ++ [event]) n = leftOut keep events n := by
  unfold leftOut
  rw [List.take_append_of_le_length inside]

theorem leftOut_set (found : events[n]? = some (.insn i)) (m : Nat) :
    leftOut keep (events.set n (.insn j)) m = leftOut keep events m := by
  unfold leftOut
  rw [List.take_set]
  by_cases inside : n < (events.take m).length
  · have here : (events.take m)[n]? = some (.insn i) := by
      rw [List.getElem?_take_of_lt (by simp at inside; omega),found]
    obtain ⟨bound,same⟩ := List.getElem?_eq_some_iff.mp here
    rw [List.countP_set bound,same]
    simp [Event.isKept]
  · rw [List.set_eq_of_length_le (Nat.le_of_not_lt inside)]

@[simp] theorem insn_kept (keep : Label → Bool) (i : Insn) : Event.isKept keep (.insn i) = true := by simp [Event.isKept]

theorem kept_before (keep : Label → Bool) (inside : n ≤ events.length) :
    ((events.take n).filter (Event.isKept keep)).length = n - leftOut keep events n := by
  have whole := List.length_eq_countP_add_countP (Event.isKept keep) (l := events.take n)
  rw [List.length_take,Nat.min_eq_left inside,List.countP_eq_length_filter] at whole
  have same : (events.take n).countP (fun event => ¬event.isKept keep = true) = leftOut keep events n := by
    unfold leftOut
    congr 1
    funext event
    cases event.isKept keep <;> rfl
  omega

theorem split_at (found : events[n]? = some event) : events = events.take n ++ event :: events.drop (n + 1) := by
  obtain ⟨inside,rfl⟩ := List.getElem?_eq_some_iff.mp found
  rw [List.cons_getElem_drop_succ,List.take_append_drop]

theorem filter_place (found : events[n]? = some event) (kept : event.isKept keep = true) :
    (events.filter (Event.isKept keep))[n - leftOut keep events n]? = some event := by
  obtain ⟨inside,-⟩ := List.getElem?_eq_some_iff.mp found
  have before := kept_before keep (Nat.le_of_lt inside)
  have parts := congrArg (List.filter (Event.isKept keep)) (split_at found)
  rw [List.filter_append,List.filter_cons_of_pos kept] at parts
  rw [parts,← before]
  simp

theorem filter_set (keep : Label → Bool) (found : events[n]? = some (.insn i)) (j : Insn) :
    (events.set n (.insn j)).filter (Event.isKept keep) =
      (events.filter (Event.isKept keep)).set (n - leftOut keep events n) (.insn j) := by
  obtain ⟨inside,-⟩ := List.getElem?_eq_some_iff.mp found
  have before := kept_before keep (Nat.le_of_lt inside)
  have parts := congrArg (List.filter (Event.isKept keep)) (split_at found)
  rw [List.filter_append,List.filter_cons_of_pos (insn_kept keep i)] at parts
  rw [List.set_eq_take_append_cons_drop,if_pos inside,List.filter_append,List.filter_cons_of_pos (insn_kept keep j),parts,← before]
  simp

theorem map_modify {α β : Type} {f : α → β} {g : α → α} {h : β → β} (comm : ∀ a, f (g a) = h (f a)) (items : Array α)
    (k : Nat) : (items.modify k g).map f = (items.map f).modify k h := by
  apply Array.ext_getElem?
  intro k
  simp only [Array.getElem?_map,Array.getElem?_modify]
  split
  · cases items[k]? with
    | none => rfl
    | some a => exact congrArg some (comm a)
  · rfl

namespace Draft

variable {d e : Draft} {g : Group} {site : Nat} {type : Descriptor} {sites : List Nat}

def rank (keep : Label → Bool) (events : Array Event) (n : Nat) : Nat := n - leftOut keep events.toList n

def moved (keep : Label → Bool) (events : Array Event) (cell : Cell) : Cell :=
  { cell with sites := cell.sites.map (rank keep events) }

def thin (keep : Label → Bool) (d : Draft) : Draft where
  cells := d.cells.map (moved keep d.events)
  events := (d.events.toList.filter (Event.isKept keep)).toArray

theorem thin_cell (d : Draft) (i : Nat) : (d.thin keep).cell i = moved keep d.events (d.cell i) := by
  simp only [cell,thin,Array.getD_eq_getD_getElem?,Array.getElem?_map]
  cases d.cells[i]? <;> rfl

@[simp] theorem thin_root (d : Draft) (g : Group) : (d.thin keep).root g = d.root g := by
  simp only [root,thin_cell,moved]

@[simp] theorem thin_resolution (d : Draft) (g : Group) : (d.thin keep).resolution? g = d.resolution? g := by
  simp only [resolution?,thin_root,thin_cell,moved]

@[simp] theorem thin_same (d : Draft) (a b : Group) : (d.thin keep).same a b = d.same a b := by
  simp only [same,thin_root]

@[simp] theorem thin_empty : thin keep {} = {} := by simp [thin]

theorem thin_size (d : Draft) : (d.thin keep).events.size = rank keep d.events d.events.size := by
  have whole := kept_before keep (show d.events.size ≤ d.events.toList.length by simp)
  rw [List.take_of_length_le (by simp)] at whole
  simpa [thin,rank] using whole

theorem thin_newGroup (d : Draft) (wide : Bool) :
    (d.thin keep).newGroup wide = ((d.newGroup wide).1,(d.newGroup wide).2.thin keep) := by
  simp only [newGroup,thin,Array.size_map,Array.map_push,Prod.mk.injEq,true_and]
  rfl

theorem thin_addSite (d : Draft) (g : Group) (site : Nat) :
    (d.addSite g site).thin keep = (d.thin keep).addSite g (rank keep d.events site) := by
  unfold addSite
  rw [thin_root]
  simp only [thin,Draft.mk.injEq,and_true]
  refine map_modify ?_ d.cells (d.root g)
  intro cell
  simp [moved]

theorem thin_union (d : Draft) (a b : Group) :
    (d.thin keep).union a b = ((d.union a b).1,(d.union a b).2.thin keep) := by
  unfold union
  simp only [thin_root]
  split
  · rfl
  · simp only [thin,Prod.mk.injEq,Draft.mk.injEq,and_true,true_and]
    rw [map_modify (h := fun cell => { cell with sites := cell.sites ++ ((d.thin keep).cell (d.root b)).sites })
      (fun cell => by simp [moved,thin_cell]),
      map_modify (h := fun cell => { cell with sites := [] }) (fun cell => by simp [moved]),
      Array.map_map,Array.map_map]
    congr 3
    funext cell
    by_cases gone : cell.root = d.root b
    · simp [moved,gone]
    · simp [moved,gone]

theorem rank_push (kept : event.isKept keep = true) (events : Array Event) :
    rank keep (events.push event) = rank keep events := by
  funext n
  simp [rank,leftOut_snoc kept]

theorem thin_push (kept : event.isKept keep = true) (d : Draft) : (d.push event).thin keep = (d.thin keep).push event := by
  have same : moved keep (d.events.push event) = moved keep d.events := by
    funext cell
    simp only [moved,rank_push kept]
  simp [thin,push,same,List.filter_append,kept]

theorem thin_pushSite (d : Draft) (g : Group) (i : Insn) : (d.pushSite g i).thin keep = (d.thin keep).pushSite g i := by
  unfold pushSite
  rw [thin_push (insn_kept keep i),thin_addSite,thin_size]

theorem rank_before {events : Array Event} (inside : n ≤ events.size) (event : Event) :
    rank keep (events.push event) n = rank keep events n := by
  simp only [rank,Array.toList_push,leftOut_before (show n ≤ events.toList.length by simpa using inside)]

theorem thin_left_out (bounded : d.Bounded) (gone : event.isKept keep = false) : (d.push event).thin keep = d.thin keep := by
  simp only [thin,push_cells,push_events,Array.toList_push,List.filter_append,Draft.mk.injEq]
  refine ⟨?_,by simp [gone]⟩
  apply Array.ext_getElem?
  intro k
  simp only [Array.getElem?_map]
  cases found : d.cells[k]? with
  | none => rfl
  | some cell =>
    have here : d.cell k = cell := by simp [Draft.cell,found]
    simp only [Option.map_some,moved,Option.some.injEq,Cell.mk.injEq,true_and,and_true]
    apply List.map_congr_left
    intro site member
    exact rank_before (Nat.le_of_lt (bounded k site (here ▸ member))) event

theorem thin_retypeSite (keep : Label → Bool) (done : retypeSite type d site = .ok e) :
    retypeSite type (d.thin keep) (rank keep d.events site) = .ok (e.thin keep) ∧ rank keep e.events = rank keep d.events := by
  have cells := retypeSite_cells done
  obtain ⟨i,j,found,retyped,written⟩ := retypeSite_events done
  have listed : d.events.toList[site]? = some (.insn i) := by simpa using found
  have events : e.events.toList = d.events.toList.set site (.insn j) := by simp [written]
  have same : rank keep e.events = rank keep d.events := by
    funext n
    simp only [rank,events,leftOut_set listed]
  have there : (d.thin keep).events[rank keep d.events site]? = some (.insn i) := by
    simpa [thin,rank] using filter_place listed (insn_kept keep i)
  refine ⟨?_,same⟩
  simp only [retypeSite,there,bind_eq_ok,pure_eq_ok]
  refine ⟨j,retyped,?_⟩
  have kept := filter_set keep listed j
  rw [← events] at kept
  have still : moved keep e.events = moved keep d.events := by
    funext cell
    simp only [moved,same]
  simp [thin,cells,still,kept,rank]

theorem thin_retypeSites (keep : Label → Bool) (done : sites.foldlM (retypeSite type) d = .ok e) :
    (sites.map (rank keep d.events)).foldlM (retypeSite type) (d.thin keep) = .ok (e.thin keep) ∧
      rank keep e.events = rank keep d.events := by
  induction sites generalizing d with
  | nil =>
    cases done
    exact ⟨rfl,rfl⟩
  | cons site rest ih =>
    rw [List.foldlM_cons,bind_eq_ok] at done
    obtain ⟨m,step,done⟩ := done
    obtain ⟨first,same⟩ := thin_retypeSite keep step
    obtain ⟨others,still⟩ := ih done
    rw [List.map_cons,List.foldlM_cons,bind_eq_ok]
    exact ⟨⟨_,first,same ▸ others⟩,still.trans same⟩

theorem thin_resolve (keep : Label → Bool) (done : d.resolve g type = .ok e) :
    (d.thin keep).resolve g type = .ok (e.thin keep) := by
  cases known : d.resolution? g with
  | some old =>
    rw [resolve_of_resolved (by simp [known])] at done
    cases done
    exact resolve_of_resolved (by simp [known])
  | none =>
    obtain ⟨retyped,-⟩ := thin_retypeSites keep (resolve_sites known done)
    have isOpen : ((d.thin keep).cell (d.root g)).resolved = none := by
      rw [thin_cell]
      exact known
    have cells : (d.cells.modify (d.root g) fun cell => { cell with sites := [], resolved := some type }).map (moved keep d.events) =
        (d.thin keep).cells.modify (d.root g) fun cell => { cell with sites := [], resolved := some type } :=
      map_modify (fun cell => by simp [moved]) d.cells (d.root g)
    simp only [resolve,thin_root,isOpen,Option.isSome_none,Bool.false_eq_true,if_false]
    rw [thin_cell,← cells]
    exact retyped

theorem thin_resolveDefaults (keep : Label → Bool) (done : d.resolveDefaults = .ok e) : (d.thin keep).resolveDefaults = .ok (e.thin keep) := by
  have each : ∀ {m n : Draft} {i : Nat}, m.resolveDefault i = .ok n → (m.thin keep).resolveDefault i = .ok (n.thin keep) := by
    intro m n i step
    unfold resolveDefault at step ⊢
    simp only [thin_cell,moved] at step ⊢
    split at step
    · rename_i skipped
      cases step
      rw [if_pos skipped]
    · rename_i needed
      rw [if_neg needed]
      exact thin_resolve keep step
  have size : (d.thin keep).cells.size = d.cells.size := by simp [thin]
  unfold resolveDefaults at done ⊢
  rw [size]
  generalize List.range d.cells.size = ids at done ⊢
  clear size
  induction ids generalizing d with
  | nil =>
    cases done
    rfl
  | cons i rest ih =>
    rw [List.foldlM_cons,bind_eq_ok] at done ⊢
    obtain ⟨m,step,done⟩ := done
    exact ⟨_,each step,ih done⟩

end Draft

-- Frames see no more of a draft than its groups.

variable {d e : Draft} {state here there met : RegisterState} {arrival : Arrival} {f g h : Frame}

@[simp] theorem RegisterState.settled_thin (state : RegisterState) (d : Draft) :
    state.settled (d.thin keep) = state.settled d := by
  simp [settled]

@[simp] theorem Frame.get_thin (f : Frame) (d : Draft) (r : Nat) : f.get (d.thin keep) r = f.get d r := by
  simp [Frame.get]

theorem RegisterState.meetGroups_thin (keep : Label → Bool) (a b : Group) (rebuilt : Group → RegisterState) (arrival : Arrival)
    (d : Draft) : meetGroups a b rebuilt arrival (d.thin keep) =
      ((meetGroups a b rebuilt arrival d).1,(meetGroups a b rebuilt arrival d).2.thin keep) := by
  unfold meetGroups
  rw [Draft.thin_same]
  split
  · rfl
  · rw [Draft.thin_union]

theorem RegisterState.meetOpen_thin {g : Group} {type : Descriptor} (keep : Label → Bool)
    (done : meetOpen g type arrival d = .ok (met,e)) : meetOpen g type arrival (d.thin keep) = .ok (met,e.thin keep) := by
  cases arrival with
  | handler =>
    cases done
    rfl
  | branch =>
    simp only [meetOpen,bind_eq_ok,pure_eq_ok,Prod.mk.injEq] at done ⊢
    obtain ⟨_,resolved,rfl,rfl⟩ := done
    exact ⟨_,Draft.thin_resolve keep resolved,rfl,rfl⟩

theorem RegisterState.meet_thin (keep : Label → Bool) (done : here.meet there arrival d = .ok (met,e)) :
    here.meet there arrival (d.thin keep) = .ok (met,e.thin keep) := by
  have groups : ∀ {a b : Group} {rebuilt : Group → RegisterState}, meetGroups a b rebuilt arrival d = (met,e) →
      meetGroups a b rebuilt arrival (d.thin keep) = (met,e.thin keep) := by
    intro a b rebuilt same
    rw [meetGroups_thin,same]
  have apart : ∀ {x : Except Fault RegisterState}, (do return (← x,d)) = .ok (met,e) →
      (do return (← x,d.thin keep)) = .ok (met,e.thin keep) := by
    intro x same
    simp only [bind_eq_ok,pure_eq_ok,Prod.mk.injEq] at same ⊢
    obtain ⟨_,rfl,rfl,rfl⟩ := same
    exact ⟨_,rfl,rfl,rfl⟩
  have opened : ∀ {g : Group} {type : Descriptor} {x : Except Fault RegisterState} {c : Prop} [Decidable c],
      (if c then meetOpen g type arrival d else do return (← x,d)) = .ok (met,e) →
      (if c then meetOpen g type arrival (d.thin keep) else do return (← x,d.thin keep)) = .ok (met,e.thin keep) := by
    intro g type x c _ same
    split at same
    · rename_i alike
      rw [if_pos alike]
      exact meetOpen_thin keep same
    · rename_i differ
      rw [if_neg differ]
      exact apart same
  cases here <;> cases there <;> simp only [meet] at done ⊢
  case typed.typed => exact apart done
  case open32.open32 | open64.open64 => exact congrArg Except.ok (groups (Except.ok.inj done))
  case open32.open64 | open64.open32 => exact apart done
  case open32.typed | open64.typed | typed.open32 | typed.open64 => exact opened done
  all_goals
    cases done
    rfl

theorem Frame.merge_thin (keep : Label → Bool) (done : f.merge g arrival d = .ok (h,e)) :
    f.merge g arrival (d.thin keep) = .ok (h,e.thin keep) := by
  unfold Frame.merge at done ⊢
  split at done
  · simp at done
  · rename_i sizes
    rw [if_neg sizes]
    generalize List.range f.size = registers at done ⊢
    clear sizes
    induction registers generalizing f d with
    | nil =>
      cases done
      rfl
    | cons r rest ih =>
      rw [List.foldlM_cons,bind_eq_ok] at done ⊢
      obtain ⟨⟨k,m⟩,step,done⟩ := done
      simp only [mergeAt,bind_eq_ok,within_eq_ok,pure_eq_ok] at step
      obtain ⟨⟨met,_⟩,met_eq,same⟩ := step
      cases same
      refine ⟨_,?_,ih done⟩
      simp only [mergeAt,RegisterState.settled_thin,bind_eq_ok,within_eq_ok,pure_eq_ok]
      exact ⟨_,RegisterState.meet_thin keep met_eq,rfl⟩

end Restack
