import Mathlib
import Restack.Proofs.Body.DebugLines

namespace Restack

-- What a debug program says about variables, told from its steps alone. A step may give a variable to a register, and
-- the variable stays there until the next step that takes the register, or to the end of the code.

structure Holding where
  now : Option Variable := none
  last : Option Variable := none

namespace DebugOp

def opens? (r : Nat) (h : Holding) : DebugOp → Option Variable
  | .startLocal register var => if register = r then var else none
  | .restartLocal register => if register = r then h.last else none
  | _ => none

-- Whether a step ends what a register holds. A restart with nothing to restart does not.
def takes (r : Nat) (h : Holding) : DebugOp → Bool
  | .startLocal register _ | .endLocal register => register = r
  | .restartLocal register => register = r && h.last.isSome
  | _ => false

def hands (r : Nat) (h : Holding) (op : DebugOp) : Holding :=
  if op.takes r h then ⟨op.opens? r h,h.now.or h.last⟩ else h

-- Steps of a program by their positions.

def addressAt (ops : List DebugOp) (k : Nat) : Nat := ((ops.take k).map advance).sum

def holding (r : Nat) (ops : List DebugOp) : Holding := ops.foldl (hands r) {}

def openedAt? (ops : List DebugOp) (r k : Nat) : Option Variable := ops[k]?.bind (opens? r (holding r (ops.take k)))

def takenAt (ops : List DebugOp) (r k : Nat) : Bool := ops[k]?.any (takes r (holding r (ops.take k)))

def endingAt? (ops : List DebugOp) (r k : Nat) : Option Nat := (List.range ops.length).find? fun j => k < j && takenAt ops r j

-- The label that an address gets, that is, the label of the instruction there or next to come.
def labelFor (t : LabelTable) (address : Nat) : Label := (t.obtain (DebugState.placed t address)).1

-- The scope that begins with a step. A variable that is never taken stays up to `stop`.
def scopeAt? (t : LabelTable) (stop : Label) (ops : List DebugOp) (r k : Nat) : Option LocalScope :=
  (openedAt? ops r k).map fun var =>
    { register := r, var, start := labelFor t (addressAt ops k),
      stop := ((endingAt? ops r k).map fun j => labelFor t (addressAt ops j)).getD stop }

def scopesOf (t : LabelTable) (stop : Label) (ops : List DebugOp) (r : Nat) : List LocalScope :=
  (List.range ops.length).filterMap (scopeAt? t stop ops r)

def list (c : Container) : Nat → Reader (List DebugOp)
  | 0 => (refuse .debugUnterminated : Except Fault (List DebugOp))
  | fuel + 1 => do
    let op ← read c
    if op = .endSequence then return [] else
      let rest ← list c fuel
      return op :: rest

def program (c : Container) : Reader (List DebugOp) := do
  let _ ← Reader.uleb128
  let count ← Reader.uleb128
  let _ ← Reader.times count.toNat (optionalName c.string)
  list c c.bytes.size

end DebugOp

def DebugInfo.steps (c : Container) (offset : UInt32) : Except Fault (List DebugOp) :=
  (DebugOp.program c).valueAt c.bytes offset.toNat

namespace DebugOp

variable {ops : List DebugOp} {op : DebugOp} {h : Holding} {r k j : Nat} {var : Variable} {t : LabelTable} {stop : Label}

theorem takes_of_opens (opens : op.opens? r h = some var) : op.takes r h = true := by
  cases op with
  | startLocal register v =>
    simp only [opens?] at opens
    split at opens
    · rename_i same
      exact decide_eq_true same
    · cases opens
  | restartLocal register =>
    simp only [opens?] at opens
    split at opens
    · rename_i same
      simp [takes,same,opens]
    · cases opens
  | endSequence | advanceAddress | advanceLine | endLocal | mark | setFile | special => cases opens

theorem addressAt_snoc (inside : k ≤ ops.length) : addressAt (ops ++ [op]) k = addressAt ops k := by
  rw [addressAt,List.take_append_of_le_length inside,addressAt]

theorem addressAt_length : addressAt (ops ++ [op]) (ops.length + 1) = addressAt ops ops.length + op.advance := by
  simp [addressAt]

theorem addressAt_mono (le : k ≤ j) : addressAt ops k ≤ addressAt ops j := by
  obtain ⟨n,rfl⟩ := Nat.exists_eq_add_of_le le
  rw [addressAt,addressAt,List.take_add,List.map_append,List.sum_append]
  exact Nat.le_add_right _ _

theorem holding_snoc : holding r (ops ++ [op]) = op.hands r (holding r ops) := by simp [holding]

theorem openedAt_snoc (inside : k < ops.length) : openedAt? (ops ++ [op]) r k = openedAt? ops r k := by
  rw [openedAt?,List.take_append_of_le_length (Nat.le_of_lt inside),List.getElem?_append_left inside,openedAt?]

theorem openedAt_last : openedAt? (ops ++ [op]) r ops.length = op.opens? r (holding r ops) := by simp [openedAt?]

theorem takenAt_snoc (inside : k < ops.length) : takenAt (ops ++ [op]) r k = takenAt ops r k := by
  rw [takenAt,List.take_append_of_le_length (Nat.le_of_lt inside),List.getElem?_append_left inside,takenAt]

theorem takenAt_last : takenAt (ops ++ [op]) r ops.length = op.takes r (holding r ops) := by simp [takenAt]

theorem takenAt_of_opened (opened : openedAt? ops r k = some var) : takenAt ops r k = true := by
  obtain ⟨op,here,opens⟩ := Option.bind_eq_some_iff.mp opened
  simp [takenAt,here,takes_of_opens opens]

theorem endingAt_some (found : endingAt? ops r k = some j) : k < j ∧ j < ops.length ∧ takenAt ops r j = true := by
  have holds := List.find?_some found
  have member := List.mem_of_find?_eq_some found
  simp only [Bool.and_eq_true,decide_eq_true_eq] at holds
  exact ⟨holds.1,List.mem_range.mp member,holds.2⟩

theorem endingAt_le (later : k < j) (inside : j < ops.length) (taken : takenAt ops r j = true) :
    ∃ i, endingAt? ops r k = some i ∧ i ≤ j := by
  have holds : (k < j && takenAt ops r j) = true := by simp [later,taken]
  cases found : endingAt? ops r k with
  | none => exact absurd holds (List.find?_eq_none.mp found j (List.mem_range.mpr inside))
  | some i =>
    refine ⟨i,rfl,Nat.le_of_not_lt fun earlier => ?_⟩
    have skipped := (List.find?_range_eq_some.mp found).2.2 j earlier
    simp [later,taken] at skipped

theorem endingAt_snoc (inside : k < ops.length) : endingAt? (ops ++ [op]) r k =
    (endingAt? ops r k).or (if op.takes r (holding r ops) then some ops.length else none) := by
  have front : (List.range ops.length).find? (fun j => k < j && takenAt (ops ++ [op]) r j) = endingAt? ops r k := by
    refine List.find?_congr ?_
    intro j member
    rw [takenAt_snoc (List.mem_range.mp member)]
  rw [endingAt?,List.length_append,List.length_singleton,List.range_succ,List.find?_append,front]
  simp [takenAt_last,inside]

theorem endingAt_last : endingAt? (ops ++ [op]) r ops.length = none := by
  refine List.find?_eq_none.mpr ?_
  intro j member
  have bound := List.mem_range.mp member
  rw [List.length_append,List.length_singleton] at bound
  simp [show ¬ops.length < j by omega]

-- A step that does not take a register changes nothing in its scopes. One that does ends the last of them, and may begin one.

theorem scopeAt_snoc (inside : k < ops.length) : scopeAt? t stop (ops ++ [op]) r k =
    scopeAt? t (if op.takes r (holding r ops) then labelFor t (addressAt ops ops.length) else stop) ops r k := by
  have ending : ((endingAt? (ops ++ [op]) r k).map fun j => labelFor t (addressAt (ops ++ [op]) j)).getD stop =
      ((endingAt? ops r k).map fun j => labelFor t (addressAt ops j)).getD
        (if op.takes r (holding r ops) then labelFor t (addressAt ops ops.length) else stop) := by
    rw [endingAt_snoc inside]
    cases found : endingAt? ops r k with
    | some j => simp [addressAt_snoc (Nat.le_of_lt (endingAt_some found).2.1)]
    | none =>
      split
      · simp [addressAt_snoc]
      · rfl
  simp only [scopeAt?,openedAt_snoc inside,addressAt_snoc (Nat.le_of_lt inside),ending]

theorem scopesOf_snoc : scopesOf t stop (ops ++ [op]) r =
    scopesOf t (if op.takes r (holding r ops) then labelFor t (addressAt ops ops.length) else stop) ops r ++
      ((op.opens? r (holding r ops)).map fun var => ⟨r,var,labelFor t (addressAt ops ops.length),stop⟩).toList := by
  rw [scopesOf,List.length_append,List.length_singleton,List.range_succ,List.filterMap_append,scopesOf]
  congr 1
  · exact List.filterMap_congr fun k member => scopeAt_snoc (List.mem_range.mp member)
  · simp only [scopeAt?,openedAt_last,endingAt_last,addressAt_snoc (Nat.le_refl _),List.filterMap_cons,List.filterMap_nil]
    cases op.opens? r (holding r ops) <;> rfl

end DebugOp

namespace DebugState

variable {s t : DebugState} {op : DebugOp} {q r : Nat} {stop : Label}

def holds (s : DebugState) (r : Nat) : Holding := ⟨(s.held.get? r).join.map Prod.fst,s.closed.get? r⟩

def endedIn (s : DebugState) (r : Nat) : List LocalScope := s.locals.filter (·.register = r)

def pending (s : DebugState) (r : Nat) (stop : Label) : List LocalScope :=
  ((s.held.get? r).join.map fun scope => ⟨r,scope.1,scope.2,stop⟩).toList

theorem closeHeld_here (s : DebugState) (r : Nat) (stop : Label) :
    (s.closeHeld r stop).endedIn r = s.endedIn r ++ s.pending r stop ∧ (s.closeHeld r stop).held.get? r = none ∧
      (s.closeHeld r stop).closed.get? r = (s.holds r).now.or (s.holds r).last := by
  unfold closeHeld
  cases found : s.held.get? r with
  | none => simp [pending,holds,found]
  | some scope =>
    rcases scope with _ | ⟨var,start⟩
    · simp [close,endedIn,pending,holds,found,NatMap.get?_erase]
    · simp [close,endedIn,pending,holds,found,NatMap.get?_erase,NatMap.get?_insert]

theorem closeHeld_elsewhere (other : r ≠ q) (s : DebugState) (stop : Label) :
    (s.closeHeld q stop).endedIn r = s.endedIn r ∧ (s.closeHeld q stop).held.get? r = s.held.get? r ∧
      (s.closeHeld q stop).closed.get? r = s.closed.get? r := by
  unfold closeHeld
  split
  · exact ⟨rfl,rfl,rfl⟩
  · rename_i scope found
    rcases scope with _ | ⟨var,start⟩
    · simp [close,endedIn,NatMap.get?_erase,other]
    · simp [close,endedIn,NatMap.get?_erase,NatMap.get?_insert,other,Ne.symm other]

-- What a step can do to a register: let it be, or take it at a label and give it the variable that the step gives.

structure Leaves (r : Nat) (s t : DebugState) : Prop where
  ended : t.endedIn r = s.endedIn r
  held : (t.held.get? r).join = (s.held.get? r).join
  closed : t.closed.get? r = s.closed.get? r

structure Takes (given : Option Variable) (r : Nat) (label : Label) (s t : DebugState) : Prop where
  ended : t.endedIn r = s.endedIn r ++ s.pending r label
  held : (t.held.get? r).join = given.map (·,label)
  closed : t.closed.get? r = (s.holds r).now.or (s.holds r).last

theorem closing_leaves (other : r ≠ q) (s : DebugState) : Leaves r s (s.here.2.closeHeld q s.here.1) := by
  obtain ⟨ended,held,closed⟩ := closeHeld_elsewhere other s.here.2 s.here.1
  exact ⟨ended,congrArg Option.join held,closed⟩

theorem closing_takes (s : DebugState) (r : Nat) : Takes none r s.here.1 s (s.here.2.closeHeld r s.here.1) := by
  obtain ⟨ended,held,closed⟩ := closeHeld_here s.here.2 r s.here.1
  exact ⟨ended,congrArg Option.join held,closed⟩

theorem Leaves.hold (leaves : Leaves r s t) (other : r ≠ q) (scope : Option (Variable × Label)) : Leaves r s (t.hold q scope) :=
  ⟨leaves.ended,by simpa [DebugState.hold,NatMap.get?_insert,other] using leaves.held,leaves.closed⟩

theorem Takes.hold {label : Label} {before : Option Variable} (takes : Takes before r label s t) (given : Option Variable) :
    Takes given r label s (t.hold r (given.map (·,label))) :=
  ⟨takes.ended,by simp [DebugState.hold,NatMap.get?_insert],takes.closed⟩

theorem step_register (done : s.step op = .ok t) (going : op ≠ .endSequence) (r : Nat) :
    (op.takes r (s.holds r) = false ∧ Leaves r s t) ∨
    (op.takes r (s.holds r) = true ∧ ∃ label, t.labels.labelAt? (placed s.labels s.address) = some label ∧
      Takes (op.opens? r (s.holds r)) r label s t) := by
  have named : s.here.2.labels.labelAt? (placed s.labels s.address) = some s.here.1 := LabelTable.obtain_label s.labels _
  cases op with
  | endSequence => exact absurd rfl going
  | advanceAddress delta =>
    simp only [step] at done
    split at done
    · simp at done
    · cases done
      exact .inl ⟨rfl,rfl,rfl,rfl⟩
  | advanceLine delta | mark | setFile file =>
    cases done
    exact .inl ⟨rfl,rfl,rfl,rfl⟩
  | special opcode =>
    simp only [step,special,guard_eq_ok,pure_eq_ok] at done
    obtain ⟨-,-,rfl⟩ := done
    exact .inl ⟨rfl,rfl,rfl,rfl⟩
  | startLocal q var =>
    cases done
    by_cases other : r = q
    · subst other
      refine .inr ⟨by simp [DebugOp.takes],s.here.1,?_,?_⟩
      · rw [← named]
        exact congrArg (LabelTable.labelAt? · _) (closeHeld_labels s.here.2 r s.here.1)
      · rw [DebugOp.opens?,if_pos rfl]
        exact (closing_takes s r).hold var
    · exact .inl ⟨by simp [DebugOp.takes,Ne.symm other],(closing_leaves other s).hold other _⟩
  | endLocal q =>
    simp only [step,endLocal] at done
    split at done
    · cases done
      by_cases other : r = q
      · subst other
        refine .inr ⟨by simp [DebugOp.takes],s.here.1,?_,closing_takes s r⟩
        rw [closeHeld_labels]
        exact named
      · exact .inl ⟨by simp [DebugOp.takes,Ne.symm other],closing_leaves other s⟩
    · simp at done
  | restartLocal q =>
    cases done
    unfold restartLocal
    by_cases other : r = q
    · subst other
      cases found : s.closed.get? r with
      | none => exact .inl ⟨by simp [DebugOp.takes,holds,found],rfl,rfl,rfl⟩
      | some var =>
        refine .inr ⟨by simp [DebugOp.takes,holds,found],s.here.1,?_,?_⟩
        · rw [← named]
          exact congrArg (LabelTable.labelAt? · _) (closeHeld_labels s.here.2 r s.here.1)
        · rw [DebugOp.opens?,if_pos rfl,holds,found]
          exact (closing_takes s r).hold (some var)
    · refine .inl ⟨by simp [DebugOp.takes,Ne.symm other],?_⟩
      split
      · exact ⟨rfl,rfl,rfl⟩
      · exact (closing_leaves other s).hold other _

theorem Leaves.holds (leaves : Leaves r s t) : t.holds r = s.holds r := by
  rw [DebugState.holds,leaves.held,leaves.closed,DebugState.holds]

theorem Takes.holds {given : Option Variable} {label : Label} (takes : Takes given r label s t) :
    t.holds r = ⟨given,(s.holds r).now.or (s.holds r).last⟩ := by
  rw [DebugState.holds,takes.held,takes.closed,Option.map_map]
  cases given <;> rfl

theorem Leaves.pending (leaves : Leaves r s t) (stop : Label) : t.pending r stop = s.pending r stop := by
  rw [DebugState.pending,leaves.held,DebugState.pending]

theorem Takes.pending {given : Option Variable} {label : Label} (takes : Takes given r label s t) (stop : Label) :
    t.pending r stop = (given.map fun var => ⟨r,var,label,stop⟩).toList := by
  rw [DebugState.pending,takes.held,Option.map_map]
  rfl

-- The state says of every register what the steps say, its labels being those of the table at the end.
structure Told (labels : LabelTable) (ops : List DebugOp) (s : DebugState) : Prop where
  address : s.address = DebugOp.addressAt ops ops.length
  holds : ∀ r, s.holds r = DebugOp.holding r ops
  scopes : ∀ r stop, DebugOp.scopesOf labels stop ops r = s.endedIn r ++ s.pending r stop
  named : ∀ r k, DebugOp.takenAt ops r k = true →
    labels.labelAt? (placed labels (DebugOp.addressAt ops k)) = some (DebugOp.labelFor labels (DebugOp.addressAt ops k))

theorem labelFor_eq {labels : LabelTable} {a : Nat} {label : Label} (known : labels.labelAt? (placed labels a) = some label) :
    DebugOp.labelFor labels a = label := by
  obtain ⟨entry,found,rfl⟩ := Option.map_eq_some_iff.mp known
  simp [DebugOp.labelFor,LabelTable.obtain,found]

-- Labels that are given out later change none of those that were.
structure Extended (one two : LabelTable) : Prop where
  starts : two.starts = one.starts
  stop : two.stop = one.stop
  labels : ∀ a label, one.labelAt? a = some label → two.labelAt? a = some label

theorem Extended.ensure {one two : LabelTable} (extended : Extended one two) (a : Nat) : Extended one (two.ensure a) :=
  ⟨(two.ensure_starts a).trans extended.starts,(two.ensure_stop a).trans extended.stop,
    fun b label known => LabelTable.labelAt_ensure (extended.labels b label known) a⟩

theorem Told.step {labels : LabelTable} {ops : List DebugOp} (grown : Extended t.labels labels) (before : Told labels ops s)
    (done : s.step op = .ok t) (going : op ≠ .endSequence) : Told labels (ops ++ [op]) t := by
  -- A label given at this step is in the table at the end.
  have kept : ∀ label, t.labels.labelAt? (placed s.labels s.address) = some label →
      labels.labelAt? (placed labels (DebugOp.addressAt ops ops.length)) = some label := by
    intro label known
    rw [← before.address,placed_congr grown.starts grown.stop,step_placed done]
    exact grown.labels _ _ known
  refine ⟨?_,?_,?_,?_⟩
  · rw [(step_lines done).1,before.address,List.length_append,List.length_singleton,DebugOp.addressAt_length]
  · intro r
    rw [DebugOp.holding_snoc,← before.holds r,DebugOp.hands]
    rcases step_register done going r with ⟨idle,leaves⟩ | ⟨taken,label,-,takes⟩
    · rw [idle,leaves.holds]
      rfl
    · rw [if_pos taken,takes.holds]
  · intro r stop
    rw [DebugOp.scopesOf_snoc,← before.holds r]
    rcases step_register done going r with ⟨idle,leaves⟩ | ⟨taken,label,known,takes⟩
    · have opens : op.opens? r (s.holds r) = none := by
        refine Option.eq_none_iff_forall_ne_some.mpr fun var opens => ?_
        rw [DebugOp.takes_of_opens opens] at idle
        cases idle
      rw [idle,opens,before.scopes,leaves.ended,leaves.pending]
      simp
    · rw [if_pos taken,before.scopes,takes.ended,takes.pending,labelFor_eq (kept label known)]
  · intro r k taken
    have inside : k < ops.length + 1 := by
      refine Nat.lt_of_not_le fun past => ?_
      have none : (ops ++ [op])[k]? = none := List.getElem?_eq_none (by simpa using past)
      simp [DebugOp.takenAt,none] at taken
    rcases Nat.lt_succ_iff_lt_or_eq.mp inside with earlier | rfl
    · rw [DebugOp.takenAt_snoc earlier] at taken
      rw [DebugOp.addressAt_snoc (Nat.le_of_lt earlier)]
      exact before.named r k taken
    · rw [DebugOp.takenAt_last,← before.holds r] at taken
      rw [DebugOp.addressAt_snoc (Nat.le_refl _)]
      rcases step_register done going r with ⟨idle,-⟩ | ⟨-,label,known,-⟩
      · rw [taken] at idle
        cases idle
      · rw [labelFor_eq (kept label known)]
        exact kept label known

theorem run_extended {ops : List DebugOp} (ran : ops.foldlM DebugState.step s = .ok t) : Extended s.labels t.labels :=
  foldlM_keeps (P := fun u : DebugState => Extended s.labels u.labels)
    (fun _ _ _ _ before done => step_labels (fun _ a _ extended => extended.ensure a) before done)
    ⟨rfl,rfl,fun _ _ known => known⟩ ran

theorem run_told {u : DebugState} {ops rest : List DebugOp} (fresh : Told u.labels [] s)
    (ran : ops.foldlM DebugState.step s = .ok t) (after : rest.foldlM DebugState.step t = .ok u)
    (going : ∀ op ∈ ops, op ≠ .endSequence) : Told u.labels ops t := by
  induction ops using List.reverseRecOn generalizing t rest with
  | nil =>
    cases ran
    exact fresh
  | append_singleton ops op ih =>
    obtain ⟨m,before,done⟩ := foldlM_snoc_ok.mp ran
    have onward : (op :: rest).foldlM DebugState.step m = .ok u := by
      rw [List.foldlM_cons,bind_eq_ok]
      exact ⟨t,done,after⟩
    have told := ih before onward fun other member => going other (List.mem_append_left _ member)
    exact told.step (run_extended after) done (going op (by simp))

theorem closeEach_ended (pairs : NatMap (Option (Variable × Label))) (stop : Label) (s : DebugState) (r : Nat) :
    (pairs.foldl (fun state pair => state.closeHeld pair.1 stop) s).endedIn r =
      s.endedIn r ++ if r ∈ pairs.map Prod.fst then s.pending r stop else [] := by
  induction pairs generalizing s with
  | nil => simp
  | cons pair rest ih =>
    rw [List.foldl_cons,ih,List.map_cons]
    by_cases here : r = pair.1
    · obtain ⟨ended,held,-⟩ := closeHeld_here s r stop
      have nothing : (s.closeHeld r stop).pending r stop = [] := by simp [DebugState.pending,held]
      rw [← here,if_pos List.mem_cons_self,nothing,ite_self,List.append_nil,ended]
    · obtain ⟨ended,held,-⟩ := closeHeld_elsewhere here s stop
      have same : (s.closeHeld pair.1 stop).pending r stop = s.pending r stop := by rw [DebugState.pending,held,DebugState.pending]
      simp only [ended,same,List.mem_cons,here,false_or]

theorem closeAll_ended (s : DebugState) (r : Nat) : s.closeAll.endedIn r = s.endedIn r ++ s.pending r s.labels.stopLabel := by
  rw [closeAll,closeEach_ended]
  split
  · rfl
  · rename_i absent
    have nothing : s.held.get? r = none := by
      refine List.lookup_eq_none_iff.mpr fun pair member => ?_
      exact bne_iff_ne.mpr fun same => absent (List.mem_map.mpr ⟨pair,member,same.symm⟩)
    simp [DebugState.pending,nothing]

theorem run_listed {c : Container} {fuel more start stop : Nat} {bytes : Bytes} (enough : fuel ≤ more)
    (done : run c fuel s bytes start = .ok (t,stop)) :
    ∃ ops u, DebugOp.list c more bytes start = .ok (ops,stop) ∧ ops.foldlM DebugState.step s = .ok u ∧ t = u.closeAll ∧
      ∀ op ∈ ops, op ≠ .endSequence := by
  induction fuel generalizing s more start with
  | zero => simp [run,reader_lift_ok] at done
  | succ fuel ih =>
    obtain ⟨more,rfl⟩ := Nat.exists_eq_add_of_le enough
    simp only [run,reader_bind_ok] at done
    obtain ⟨offset,_,⟨⟩,available,_,⟨⟩,done⟩ := done
    split at done
    · simp [reader_lift_ok] at done
    · simp only [reader_bind_ok,reader_lift_ok] at done
      obtain ⟨op,place,found,next,_,⟨stepped,rfl⟩,done⟩ := done
      rw [show fuel + 1 + more = fuel + more + 1 by omega]
      split at done
      · rename_i last
        subst last
        cases stepped
        rw [reader_pure_ok] at done
        refine ⟨[],s,?_,rfl,done.1.symm,by simp⟩
        simp only [DebugOp.list,reader_bind_ok]
        exact ⟨_,_,found,by simp [reader_pure_ok,done.2]⟩
      · rename_i going
        obtain ⟨ops,u,listed,ran,rfl,others⟩ := ih (Nat.le_add_right fuel more) done
        refine ⟨op :: ops,u,?_,?_,rfl,List.forall_mem_cons.mpr ⟨going,others⟩⟩
        · simp only [DebugOp.list,reader_bind_ok]
          refine ⟨op,place,found,?_⟩
          simp only [going,if_false,reader_bind_ok,reader_pure_ok]
          exact ⟨ops,stop,listed,rfl,rfl⟩
        · rw [List.foldlM_cons,bind_eq_ok]
          exact ⟨next,stepped,ran⟩

end DebugState

end Restack
