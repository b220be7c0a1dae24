import Mathlib
import Restack.Proofs.Lowering.Ranges
import Restack.Proofs.Switches

namespace Restack

-- Which addresses the first pass gives labels to, and which of them it marks. Both are said here by
-- the instructions and the ranges of a body alone; the table that the pass builds has just these.

variable {item : CodeItem} {units : CodeUnits} {t u m : LabelTable} {e : Encoded} {pc a b size : Nat} {range : TryItem}

def usesData (op : Operation) : Bool := isSwitch op || op = .fillArrayData

-- Control comes here other than from the instruction before.
inductive CodeItem.JumpsTo (item : CodeItem) : Nat → Prop where
  | branch {pc b : Nat} {e : Encoded} : .instruction pc e ∈ (Walk.ofCode item.units).blocks →
      isBranch e.opcode.operation = true → (b : Int) = pc + e.operands.literal → JumpsTo item b
  -- The distances in a table are from the switch that uses it.
  | case {pc a b : Nat} {d : Int} {e : Encoded} : .instruction pc e ∈ (Walk.ofCode item.units).blocks →
      isSwitch e.opcode.operation = true → (a : Int) = pc + e.operands.literal →
      d ∈ CodeUnits.tableDistances item.units a (CodeReferences.payloadKind e.opcode.operation) → (b : Int) = pc + d →
      JumpsTo item b
  | otherwise {pc : Nat} {e : Encoded} : .instruction pc e ∈ (Walk.ofCode item.units).blocks →
      isSwitch e.opcode.operation = true → JumpsTo item (pc + e.units)
  | handler {b : Nat} {range : TryItem} {handler : CatchHandler} : range ∈ item.tries → item.handlerFor range = some handler →
      b ∈ handler.addresses → JumpsTo item b

def CodeItem.StartsAt (item : CodeItem) (a : Nat) : Prop := ∃ e, .instruction a e ∈ (Walk.ofCode item.units).blocks

-- The first instruction from an address on, or the end of the code if there is none.
inductive CodeItem.SnapsTo (item : CodeItem) (low : Nat) : Nat → Prop where
  | start {a : Nat} : item.StartsAt a → low ≤ a → (∀ b, item.StartsAt b → low ≤ b → a ≤ b) → SnapsTo item low a
  | stop : (∀ b, item.StartsAt b → b < low) → SnapsTo item low item.units.size

inductive CodeItem.RefersTo (item : CodeItem) : Nat → Prop where
  | first : RefersTo item 0
  | last : RefersTo item item.units.size
  | jump {a : Nat} : item.JumpsTo a → RefersTo item a
  | data {pc a : Nat} {e : Encoded} : .instruction pc e ∈ (Walk.ofCode item.units).blocks →
      usesData e.opcode.operation = true → (a : Int) = pc + e.operands.literal → RefersTo item a
  | opens {range : TryItem} : range ∈ item.tries → RefersTo item range.start.toNat
  | closes {a : Nat} {range : TryItem} : range ∈ item.tries → item.SnapsTo range.past a → RefersTo item a

-- What a block refers to, by its operation and not by its layout.

theorem formats_told : ∀ run ∈ Opcode.runs, ∀ opcode ∈ run.2, isBranchFormat opcode.format = isBranch opcode.operation ∧
    decide (opcode.format = .f31t) = usesData opcode.operation := by decide

theorem target_iff {d : Int} : Payload.target pc d size = .ok a ↔ (a : Int) = pc + d ∧ a ≤ size := by
  unfold Payload.target
  dsimp only
  split
  · rename_i outside
    simp only [Bool.or_eq_true,decide_eq_true_eq] at outside
    simp only [refuse_ne_ok,false_iff]
    omega
  · rename_i inside
    simp only [Bool.or_eq_true,decide_eq_true_eq,not_or] at inside
    rw [Except.ok.injEq]
    omega

structure BlockRefers (pc : Nat) (e : Encoded) (found : CodeReferences) : Prop where
  targets : ∀ a, a ∈ found.targets ↔
    isBranch e.opcode.operation = true ∧ (a : Int) = pc + e.operands.literal ∨ isSwitch e.opcode.operation = true ∧ a = pc + e.units
  payloads : ∀ use, use ∈ found.payloads ↔ usesData e.opcode.operation = true ∧ use.user = pc ∧
    use.kind = CodeReferences.payloadKind e.opcode.operation ∧ (use.address : Int) = pc + e.operands.literal

theorem ofBlock_refers {found : CodeReferences} (member : .instruction pc e ∈ (Walk.ofCode units).blocks)
    (here : CodeReferences.ofBlock units.size (.instruction pc e) = .ok found) : BlockRefers pc e found := by
  obtain ⟨run,listed,row⟩ := decode_row (block_decode member)
  obtain ⟨branch,data⟩ := formats_told run listed e.opcode row
  have isTable : isSwitch e.opcode.operation = true → usesData e.opcode.operation = true := by
    intro known
    simp [usesData,known]
  cases format : e.opcode.format <;>
    simp only [CodeReferences.ofBlock,format,bind_eq_ok,pure_eq_ok,guard_eq_ok,Except.ok.injEq,target_iff] at here <;>
    simp only [format,isBranchFormat,reduceCtorEq,decide_false,decide_true] at branch data
  case f10t | f20t | f30t | f21t | f22t =>
    obtain ⟨address,⟨there,-⟩,rfl⟩ := here
    constructor
    · intro a
      rw [← branch,← there]
      have none : isSwitch e.opcode.operation ≠ true := fun known => by simp [isTable known] at data
      simp [none]
    · intro use
      simp [← data]
  case f31t =>
    obtain ⟨address,⟨there,-⟩,-,rfl⟩ := here
    constructor
    · intro a
      rw [← branch]
      by_cases fills : e.opcode.operation = .fillArrayData
      · simp [fills,isSwitch]
      · have known : isSwitch e.opcode.operation = true := by simpa [usesData,fills] using data.symm
        simp [fills,known]
    · intro use
      obtain ⟨user,kind,at_⟩ := use
      simp only [List.mem_singleton,PayloadUse.mk.injEq,← data,true_and,← there,Nat.cast_inj]
  all_goals
    subst here
    have none : isSwitch e.opcode.operation ≠ true := fun known => by simp [isTable known] at data
    exact ⟨fun a => by simp [← branch,none],fun use => by simp [← data]⟩

structure WalkRefers (units : CodeUnits) (references : CodeReferences) : Prop where
  targets : ∀ a, a ∈ references.targets ↔ ∃ (pc : Nat) (e : Encoded), .instruction pc e ∈ (Walk.ofCode units).blocks ∧
    (isBranch e.opcode.operation = true ∧ (a : Int) = pc + e.operands.literal ∨
      isSwitch e.opcode.operation = true ∧ a = pc + e.units)
  payloads : ∀ use, use ∈ references.payloads ↔ ∃ e, .instruction use.user e ∈ (Walk.ofCode units).blocks ∧
    usesData e.opcode.operation = true ∧ use.kind = CodeReferences.payloadKind e.opcode.operation ∧
    (use.address : Int) = use.user + e.operands.literal

theorem ofWalk_refers {references : CodeReferences} (done : CodeReferences.ofWalk units.size (Walk.ofCode units) = .ok references) :
    WalkRefers units references := by
  simp only [CodeReferences.ofWalk,bind_eq_ok,guard_eq_ok,pure_eq_ok] at done
  obtain ⟨all,mapped,-,-,-,rfl⟩ := done
  -- What was found belongs to an instruction, unless it is nothing.
  have owner : ∀ found ∈ all, found = {} ∨ ∃ pc e, .instruction pc e ∈ (Walk.ofCode units).blocks ∧ BlockRefers pc e found := by
    intro found present
    obtain ⟨block,member,here⟩ := mem_mapM mapped present
    cases block with
    | data address length =>
      cases here
      exact .inl rfl
    | instruction pc e => exact .inr ⟨pc,e,member,ofBlock_refers member here⟩
  have found : ∀ {pc e}, .instruction pc e ∈ (Walk.ofCode units).blocks → ∃ found ∈ all, BlockRefers pc e found := by
    intro pc e member
    obtain ⟨found,present,here⟩ := mapM_mem mapped member
    exact ⟨found,present,ofBlock_refers member here⟩
  constructor
  · intro a
    rw [List.mem_flatMap]
    constructor
    · rintro ⟨references,present,target⟩
      rcases owner references present with rfl | ⟨pc,e,member,refers⟩
      · cases target
      · exact ⟨pc,e,member,(refers.targets a).mp target⟩
    · rintro ⟨pc,e,member,leads⟩
      obtain ⟨references,present,refers⟩ := found member
      exact ⟨references,present,(refers.targets a).mpr leads⟩
  · intro use
    rw [List.mem_flatMap]
    constructor
    · rintro ⟨references,present,used⟩
      rcases owner references present with rfl | ⟨pc,e,member,refers⟩
      · cases used
      · obtain ⟨data,rfl,rest⟩ := (refers.payloads use).mp used
        exact ⟨e,member,data,rest⟩
    · rintro ⟨e,member,data,rest⟩
      obtain ⟨references,present,refers⟩ := found member
      exact ⟨references,present,(refers.payloads use).mpr ⟨data,rfl,rest⟩⟩

namespace LabelTable

def Labelled (t : LabelTable) (a : Nat) : Prop := ∃ entry, t.entry? a = some entry

structure Gains (t u : LabelTable) (labelled marked : Set Nat) : Prop where
  labelled : ∀ a, u.Labelled a ↔ a ∈ labelled ∨ t.Labelled a
  marked : ∀ a, u.Marked a ↔ a ∈ marked ∨ t.Marked a
  starts : u.starts = t.starts
  stop : u.stop = t.stop

variable {one two three four : Set Nat}

theorem Gains.refl (t : LabelTable) : Gains t t ∅ ∅ := ⟨by simp,by simp,rfl,rfl⟩

theorem Gains.trans (first : Gains t m one two) (second : Gains m u three four) : Gains t u (one ∪ three) (two ∪ four) := by
  refine ⟨?_,?_,second.starts.trans first.starts,second.stop.trans first.stop⟩
  · intro a
    rw [second.labelled,first.labelled,Set.mem_union]
    tauto
  · intro a
    rw [second.marked,first.marked,Set.mem_union]
    tauto

theorem gains_ensure (t : LabelTable) (a : Nat) : Gains t (t.ensure a) {a} ∅ := by
  refine ⟨?_,?_,ensure_starts t a,ensure_stop t a⟩
  · intro b
    unfold Labelled
    rw [entry_ensure]
    by_cases same : b = a
    · subst same
      cases t.entry? b <;> simp
    · simp [same]
  · intro b
    simp only [Set.mem_empty_iff_false,false_or]
    exact ⟨marked_of_ensure,fun marked => marked.ensure a⟩

theorem gains_change (t : LabelTable) (a : Nat) (f : LabelEntry → LabelEntry) (b : Nat) :
    (t.change a f).Labelled b ↔ b ∈ ({a} : Set Nat) ∨ t.Labelled b := by
  rw [← (gains_ensure t a).labelled]
  unfold Labelled
  rw [entry_change]
  split <;> simp

theorem gains_markJump (t : LabelTable) (a : Nat) : Gains t (t.markJump a) {a} {a} := by
  refine ⟨gains_change t a _,?_,ensure_starts t a,ensure_stop t a⟩
  intro b
  refine ⟨marked_of_markJump,?_⟩
  rintro (rfl | marked)
  · exact markJump_marked t b
  · exact marked.markJump a

theorem gains_setPayload (t : LabelTable) (a : Nat) (payload : Payload) : Gains t (t.setPayload a payload) {a} ∅ := by
  refine ⟨gains_change t a _,?_,ensure_starts t a,ensure_stop t a⟩
  intro b
  simp only [Set.mem_empty_iff_false,false_or]
  constructor
  · rintro ⟨entry,found,mark⟩
    rw [setPayload_eq,entry_change] at found
    split at found
    · obtain ⟨old,was,rfl⟩ := Option.map_eq_some_iff.mp found
      exact marked_of_ensure ⟨old,was,mark⟩
    · exact marked_of_ensure ⟨entry,found,mark⟩
  · intro marked
    exact marked.change a fun _ mark => mark

theorem gains_run {f : LabelTable → α → Except Fault LabelTable} {L M : α → Set Nat} {items : List α}
    (step : ∀ m item n, m.starts = t.starts → m.stop = t.stop → item ∈ items → f m item = .ok n → Gains m n (L item) (M item))
    (ran : items.foldlM f t = .ok u) : Gains t u {a | ∃ item ∈ items, a ∈ L item} {a | ∃ item ∈ items, a ∈ M item} := by
  induction items generalizing t with
  | nil =>
    cases ran
    simpa using Gains.refl u
  | cons first rest ih =>
    rw [List.foldlM_cons,bind_eq_ok] at ran
    obtain ⟨m,here,others⟩ := ran
    have one := step t first m rfl rfl List.mem_cons_self here
    have more := ih (fun n item k starts stop member => step n item k (starts.trans one.starts) (stop.trans one.stop)
      (List.mem_cons_of_mem _ member)) others
    simpa only [List.mem_cons,exists_eq_or_imp,Set.ofPred_or,Set.ofPred_mem_eq] using one.trans more

theorem gains_targets {addresses : List Nat} (done : addresses.foldlM markTarget t = .ok u) :
    Gains t u {a | a ∈ addresses} {a | a ∈ addresses} := by
  have all := gains_run (L := fun a => {a}) (M := fun a => {a}) (fun m a n _ _ _ here => (markTarget_eq here).2 ▸ gains_markJump m a) done
  simpa using all

theorem gains_handlers {addresses : List Nat} (done : addresses.foldlM markHandler t = .ok u) :
    Gains t u {a | a ∈ addresses} {a | a ∈ addresses} := by
  have all := gains_run (L := fun a => {a}) (M := fun a => {a}) (fun m a n _ _ _ here => (markHandler_eq here).2 ▸ gains_markJump m a) done
  simpa using all

-- Ranges. A range ends at the first instruction that is not before its end.

theorem SnapsTo.unique (one : item.SnapsTo pc a) (two : item.SnapsTo pc b) : a = b := by
  cases one with
  | start here low least =>
    cases two with
    | start there low' least' => exact Nat.le_antisymm (least b there low') (least' a here low)
    | stop below => exact absurd (below a here) (Nat.not_lt_of_le low)
  | stop below =>
    cases two with
    | start there low _ => exact absurd (below b there) (Nat.not_lt_of_le low)
    | stop _ => rfl

theorem snap_snaps (starts : t.starts = (Walk.ofCode item.units).starts) (stop : t.stop = item.units.size) (b : Nat) :
    item.SnapsTo b (t.snap b) := by
  have sorted := starts_sorted item.units
  unfold snap
  rw [starts,stop]
  cases found : (Walk.ofCode item.units).starts.find? (b ≤ ·) with
  | none =>
    refine .stop ?_
    intro a stands
    simpa using List.find?_eq_none.mp found a (mem_starts.mpr stands)
  | some a =>
    obtain ⟨low,before,after,split,small⟩ := List.find?_eq_some_iff_append.mp found
    refine .start (mem_starts.mp (List.mem_of_find?_eq_some found)) (by simpa using low) ?_
    intro c stands high
    have member := mem_starts.mpr stands
    rw [split] at member sorted
    rcases List.mem_append.mp member with earlier | here
    · simpa [high] using small c earlier
    · rcases List.mem_cons.mp here with rfl | later
      · exact Nat.le_refl _
      · exact Nat.le_of_lt (List.rel_of_pairwise_cons (List.pairwise_append.mp sorted).2.1 later)

def handled (item : CodeItem) (range : TryItem) : Set Nat :=
  {a | ∃ handler, item.handlerFor range = some handler ∧ a ∈ handler.addresses}

theorem gains_try (starts : t.starts = (Walk.ofCode item.units).starts) (stop : t.stop = item.units.size)
    (done : t.markTry item range = .ok u) :
    Gains t u {a | a = range.start.toNat ∨ item.SnapsTo range.past a ∨ a ∈ handled item range} (handled item range) := by
  simp only [markTry,guard_eq_ok,bind_eq_ok] at done
  obtain ⟨-,last,ends,-,done⟩ := done
  obtain rfl := TryItem.stop_past ends
  have opened := gains_ensure t range.start.toNat
  have snapped := snap_snaps (opened.starts.trans starts) (opened.stop.trans stop) range.past
  have closed := opened.trans (gains_ensure (t.ensure range.start.toNat) ((t.ensure range.start.toNat).snap range.past))
  have all : Gains t u (({range.start.toNat} ∪ {(t.ensure range.start.toNat).snap range.past}) ∪ handled item range)
      ((∅ ∪ ∅) ∪ handled item range) := by
    split at done
    · rename_i none
      cases done
      have empty : handled item range = ∅ := by simp [handled,none]
      simpa [empty] using closed
    · rename_i handler found
      have some : handled item range = {a | a ∈ handler.addresses} := by simp [handled,found]
      rw [some]
      exact closed.trans (gains_handlers done)
  have same : ∀ a, a = (t.ensure range.start.toNat).snap range.past ↔ item.SnapsTo range.past a := by
    intro a
    exact ⟨fun here => here ▸ snapped,fun snaps => SnapsTo.unique snaps snapped⟩
  refine ⟨?_,?_,all.starts,all.stop⟩
  · intro a
    rw [all.labelled]
    simp only [Set.mem_union,Set.mem_singleton_iff,Set.mem_ofPred_eq,same,or_assoc]
  · intro a
    simpa using all.marked a

theorem targets_iff {payload : Payload} (done : Payload.parse units a pc = .ok payload) (b : Nat) :
    b ∈ payload.targets ↔ ∃ d ∈ units.tableDistances a payload.kind, (b : Int) = pc + d := by
  have rows := (parse_table done).2
  generalize units.tableDistances a payload.kind = distances at rows ⊢
  generalize payload.targets = targets at rows ⊢
  induction rows with
  | nil => simp
  | cons here _ ih =>
    simp only [List.mem_cons,exists_eq_or_imp,← here,Nat.cast_inj,ih]

theorem attachAll_gains {uses : List PayloadUse} {cases : List Nat} (done : attachAll units t uses = .ok (u,cases)) :
    Gains t u {a | ∃ use ∈ uses, a = use.address} ∅ ∧
      ∀ b : Nat, b ∈ cases ↔ ∃ use ∈ uses, ∃ d ∈ units.tableDistances use.address use.kind, (b : Int) = use.user + d := by
  induction uses generalizing t cases with
  | nil =>
    cases done
    exact ⟨by simpa using Gains.refl u,by simp⟩
  | cons use rest ih =>
    simp only [attachAll,attach,bind_eq_ok,guard_eq_ok,pure_eq_ok,Prod.mk.injEq] at done
    obtain ⟨⟨m,here⟩,⟨payload,parsed,same,rfl,rfl⟩,⟨n,further⟩,others,rfl,rfl⟩ := done
    obtain ⟨gains,more⟩ := ih others
    constructor
    · have both := (gains_setPayload t use.address payload).trans gains
      simpa only [List.mem_cons,exists_eq_or_imp,Set.ofPred_or,Set.ofPred_eq_eq_singleton,Set.union_empty] using both
    · intro b
      rw [List.mem_append,targets_iff parsed,more,Decidable.not_not.mp same]
      simp only [List.mem_cons,exists_eq_or_imp]

-- The references that the pass collects are all there are.

theorem data_iff {references : CodeReferences} (refers : WalkRefers item.units references) :
    (∃ use ∈ references.payloads, a = use.address) ↔ ∃ (pc : Nat) (e : Encoded), .instruction pc e ∈ (Walk.ofCode item.units).blocks ∧
      usesData e.opcode.operation = true ∧ (a : Int) = pc + e.operands.literal := by
  constructor
  · rintro ⟨use,member,rfl⟩
    obtain ⟨e,here,data,-,there⟩ := (refers.payloads use).mp member
    exact ⟨use.user,e,here,data,there⟩
  · rintro ⟨pc,e,here,data,there⟩
    exact ⟨⟨pc,CodeReferences.payloadKind e.opcode.operation,a⟩,(refers.payloads _).mpr ⟨e,here,data,rfl,there⟩,rfl⟩

theorem case_iff {references : CodeReferences} (refers : WalkRefers item.units references) :
    (∃ use ∈ references.payloads, ∃ d ∈ CodeUnits.tableDistances item.units use.address use.kind, (b : Int) = use.user + d) ↔
      ∃ (pc a : Nat) (d : Int) (e : Encoded), .instruction pc e ∈ (Walk.ofCode item.units).blocks ∧ isSwitch e.opcode.operation = true ∧
        (a : Int) = pc + e.operands.literal ∧
        d ∈ CodeUnits.tableDistances item.units a (CodeReferences.payloadKind e.opcode.operation) ∧ (b : Int) = pc + d := by
  constructor
  · rintro ⟨use,member,d,listed,there⟩
    obtain ⟨e,here,data,kind,address⟩ := (refers.payloads use).mp member
    rw [kind] at listed
    refine ⟨use.user,use.address,d,e,here,?_,address,listed,there⟩
    -- An array has no cases.
    rcases Bool.or_eq_true_iff.mp data with known | fills
    · exact known
    · simp [of_decide_eq_true fills,CodeReferences.payloadKind,CodeUnits.tableDistances] at listed
  · rintro ⟨pc,a,d,e,here,known,address,listed,there⟩
    have data : usesData e.opcode.operation = true := by simp [usesData,known]
    exact ⟨⟨pc,_,a⟩,(refers.payloads _).mpr ⟨e,here,data,rfl,address⟩,d,listed,there⟩

theorem jumps_iff {references : CodeReferences} {cases : List Nat} (refers : WalkRefers item.units references)
    (listed : ∀ b : Nat, b ∈ cases ↔ ∃ use ∈ references.payloads, ∃ d ∈ CodeUnits.tableDistances item.units use.address use.kind,
      (b : Int) = use.user + d) :
    a ∈ references.targets ++ cases ∨ (∃ range ∈ item.tries, a ∈ handled item range) ↔ item.JumpsTo a := by
  rw [List.mem_append,refers.targets,listed,case_iff refers]
  constructor
  · rintro ((⟨pc,e,here,⟨branch,there⟩ | ⟨known,rfl⟩⟩ | ⟨pc,table,d,e,here,known,address,row,there⟩) | ⟨range,member,handler,found,among⟩)
    · exact .branch here branch there
    · exact .otherwise here known
    · exact .case here known address row there
    · exact .handler member found among
  · intro jumps
    cases jumps with
    | branch here branch there => exact .inl (.inl ⟨_,_,here,.inl ⟨branch,there⟩⟩)
    | case here known address row there => exact .inl (.inr ⟨_,_,_,_,here,known,address,row,there⟩)
    | otherwise here known => exact .inl (.inl ⟨_,_,here,.inr ⟨known,rfl⟩⟩)
    | handler member found among => exact .inr ⟨_,member,_,found,among⟩

theorem scan_exact (done : scan item = .ok t) (a : Nat) :
    (t.Labelled a ↔ item.RefersTo a) ∧ (t.Marked a ↔ item.JumpsTo a) := by
  simp only [scan,bind_eq_ok,pure_eq_ok] at done
  obtain ⟨references,referred,⟨attached,cases⟩,attaching,marked,marking,tried,trying,rfl⟩ := done
  have refers := ofWalk_refers referred
  obtain ⟨data,listed⟩ := attachAll_gains attaching
  have leads := jumps_iff (a := a) refers listed
  have jumps := ((gains_ensure (empty (Walk.ofCode item.units) item.units.size) 0).trans data).trans (gains_targets marking)
  have ranges := gains_run (fun m range n starts stop _ here =>
    gains_try (starts.trans jumps.starts) (stop.trans jumps.stop) here) trying
  have all := (jumps.trans ranges).trans (gains_ensure tried tried.stop)
  have last : tried.stop = item.units.size := ranges.stop.trans jumps.stop
  have nothing : ¬(empty (Walk.ofCode item.units) item.units.size).Labelled a := by
    intro labelled
    obtain ⟨_,found⟩ := labelled
    cases found
  have unmarked : ¬(empty (Walk.ofCode item.units) item.units.size).Marked a := by
    intro marked
    obtain ⟨_,found,_⟩ := marked
    cases found
  constructor
  · rw [all.labelled]
    simp only [Set.mem_union,Set.mem_singleton_iff,Set.mem_ofPred_eq,nothing,or_false,last,data_iff refers]
    constructor
    · rintro ((((rfl | ⟨pc,e,here,uses,there⟩) | target) | ⟨range,member,rfl | snaps | handler⟩) | rfl)
      · exact .first
      · exact .data here uses there
      · exact .jump (leads.mp (.inl target))
      · exact .opens member
      · exact .closes member snaps
      · exact .jump (leads.mp (.inr ⟨range,member,handler⟩))
      · exact .last
    · intro refers
      cases refers with
      | first => exact .inl (.inl (.inl (.inl rfl)))
      | last => exact .inr rfl
      | jump jumps =>
        rcases leads.mpr jumps with target | ⟨range,member,handler⟩
        · exact .inl (.inl (.inr target))
        · exact .inl (.inr ⟨range,member,.inr (.inr handler)⟩)
      | data here uses there => exact .inl (.inl (.inl (.inr ⟨_,_,here,uses,there⟩)))
      | opens member => exact .inl (.inr ⟨_,member,.inl rfl⟩)
      | closes member snaps => exact .inl (.inr ⟨_,member,.inr (.inl snaps)⟩)
  · rw [all.marked,← leads]
    simp only [Set.mem_union,Set.mem_empty_iff_false,Set.mem_ofPred_eq,unmarked,or_false,false_or]

end LabelTable

end Restack
