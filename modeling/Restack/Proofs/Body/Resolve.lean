import Mathlib
import Restack.Proofs.Body.Survey
import Restack.Proofs.Container.Lookups

namespace Restack

-- What the first pass has checked, the second cannot fail at: the labels and data blocks
-- that an instruction refers to are there. What is left is what it looks up.

variable {c : Container} {code : CodeItem} {units : CodeUnits} {t : LabelTable} {e : Encoded} {pc : Nat} {fault : Fault}
  {blocks : List Block}

theorem mapM_ok {f : α → Except Fault β} {items : List α} (all : ∀ item ∈ items, ∃ b, f item = .ok b) :
    ∃ results, items.mapM f = .ok results := by
  induction items with
  | nil => exact ⟨[],rfl⟩
  | cons first rest ih =>
    obtain ⟨b,here⟩ := all first List.mem_cons_self
    obtain ⟨others,there⟩ := ih fun item member => all item (List.mem_cons_of_mem _ member)
    refine ⟨b :: others,?_⟩
    simp only [List.mapM_cons,bind_eq_ok,pure_eq_ok]
    exact ⟨b,here,others,there,rfl⟩

-- What an instruction has to look up before it is handed on.
def Encoded.lookup (e : Encoded) (c : Container) : Except Fault Unit :=
  match e.opcode.operation with
  | .constString => (c.string e.pool).map fun _ => ()
  | .constClass | .checkCast | .instanceOf | .newInstance | .newArray | .filledNewArray =>
    (c.typeReference e.pool).map fun _ => ()
  | .instanceGet _ | .instancePut _ | .staticGet _ | .staticPut _ => (c.fieldReference e.pool).map fun _ => ()
  | .invoke _ => (c.methodReference e.pool).map fun _ => ()
  | _ => .ok ()

theorem lookup_inContainer (e : Encoded) (c : Container) : InContainer (e.lookup c) := by
  unfold Encoded.lookup
  split
  · exact (string_inContainer c _).map _
  case h_8 | h_9 | h_10 | h_11 => exact (fieldReference_inContainer c _).map _
  case h_12 => exact (methodReference_inContainer c _).map _
  case h_13 => exact inContainer_ok _
  all_goals exact (typeReference_inContainer c _).map _

-- Labels and data blocks that an instruction refers to are there, and of the right kind.

theorem data_layout : ∀ run ∈ Opcode.runs, ∀ opcode ∈ run.2, opcode.operation = .fillArrayData → opcode.format = .f31t := by
  decide

namespace LabelTable.Surveyed

theorem branchLabels (surveyed : t.Surveyed code) (targets : List Nat) (all : ∀ b ∈ targets, t.Marked b) :
    ∃ labels, targets.mapM t.branchLabel = .ok labels := by
  apply mapM_ok
  intro b target
  obtain ⟨label,named,-⟩ := surveyed.branchLabel (all b target)
  exact ⟨label,named⟩

theorem branchPairs (surveyed : t.Surveyed code) (keys : List Int32) (targets : List Nat) (all : ∀ b ∈ targets, t.Marked b) :
    ∃ pairs, (keys.zip targets).mapM (fun x => do return (x.1,← t.branchLabel x.2)) = .ok pairs := by
  apply mapM_ok
  intro x paired
  obtain ⟨label,here,-⟩ := surveyed.branchLabel (all x.2 (List.of_mem_zip paired).2)
  refine ⟨(x.1,label),?_⟩
  simp only [bind_eq_ok]
  exact ⟨label,here,rfl⟩

variable (surveyed : t.Surveyed code) (member : .instruction pc e ∈ (Walk.ofCode code.units).blocks)
include surveyed member

theorem branch (branches : isBranch e.opcode.operation = true) : ∃ label, e.branch t pc = .ok label := by
  obtain ⟨address,same,marked⟩ := surveyed.laid.branch_marked member branches
  obtain ⟨label,named,-⟩ := surveyed.branchLabel marked
  refine ⟨label,?_⟩
  simp only [Encoded.branch,Encoded.target,surveyed.laid.stop,bind_eq_ok]
  exact ⟨address,same,named⟩

theorem next (isTable : isSwitch e.opcode.operation = true) :
    ∃ label, t.branchLabel (pc + e.units) = .ok label ∧ t.labelAt? (pc + e.units) = some label :=
  surveyed.branchLabel (surveyed.laid.next_marked member isTable)

theorem table (format : e.opcode.format = .f31t) :
    ∃ address payload user, Payload.target pc e.operands.literal code.units.size = .ok address ∧
      e.target t pc = .ok address ∧ t.payloadAt address = .ok payload ∧
      payload.kind = CodeReferences.payloadKind e.opcode.operation ∧ LastUse code.units address user ∧
      Payload.parse code.units address user = .ok payload ∧ ∀ b ∈ payload.targets, t.Marked b := by
  obtain ⟨found,here,-⟩ := surveyed.laid.targets _ member
  obtain ⟨address,reached,used⟩ := use_mem member format here
  obtain ⟨payload,held⟩ := Option.isSome_iff_exists.mp (surveyed.held _ used)
  obtain ⟨user,last,parsed⟩ := surveyed.read _ _ held
  have kind := surveyed.kinds _ used
  rw [parse_kind parsed] at kind
  have read : t.payloadAt address = .ok payload := by
    unfold LabelTable.payloadAt
    unfold payload? at held
    rw [held]
  refine ⟨address,payload,user,reached,?_,read,Option.some.inj kind,last,parsed,payloadAt_targets surveyed.laid read⟩
  rw [Encoded.target,surveyed.laid.stop]
  exact reached

end LabelTable.Surveyed

theorem table_format (member : .instruction pc e ∈ (Walk.ofCode code.units).blocks)
    (uses : e.opcode.operation = .fillArrayData ∨ isSwitch e.opcode.operation = true) : e.opcode.format = .f31t := by
  rcases uses with data | switches
  · obtain ⟨run,row,opcode⟩ := decode_row (block_decode member)
    exact data_layout run row e.opcode opcode data
  · simpa [Opcode.layoutFits,switches] using (Bool.and_eq_true_iff.mp (blocks_fit member)).2

theorem resolve_lookup (surveyed : t.Surveyed code) (member : .instruction pc e ∈ (Walk.ofCode code.units).blocks) :
    (e.resolve c t pc).map (fun _ => ()) = e.lookup c := by
  unfold Encoded.resolve Encoded.lookup
  cases operation : e.opcode.operation with
  | goto | test op | testZero op =>
    obtain ⟨label,named⟩ := surveyed.branch member (by rw [operation]; rfl)
    dsimp only
    rw [named]
    rfl
  | fillArrayData =>
    obtain ⟨address,payload,user,-,reached,read,kind,-⟩ := surveyed.table member (table_format member (.inl operation))
    rw [operation] at kind
    dsimp only
    rw [reached]
    cases payload with
    | arrayData data =>
      simp only [Bind.bind,Except.bind,read]
      rfl
    | _ => cases kind
  | packedSwitch =>
    obtain ⟨address,payload,user,-,reached,read,kind,-,-,all⟩ := surveyed.table member (table_format member (.inr (by rw [operation]; rfl)))
    obtain ⟨next,named,-⟩ := surveyed.next member (by rw [operation]; rfl)
    rw [operation] at kind
    dsimp only
    rw [reached]
    cases payload with
    | packedSwitch firstKey targets =>
      obtain ⟨labels,mapped⟩ := surveyed.branchLabels targets all
      simp only [Bind.bind,Except.bind,read,mapped,named]
      rfl
    | _ => cases kind
  | sparseSwitch =>
    obtain ⟨address,payload,user,-,reached,read,kind,-,-,all⟩ := surveyed.table member (table_format member (.inr (by rw [operation]; rfl)))
    obtain ⟨next,named,-⟩ := surveyed.next member (by rw [operation]; rfl)
    rw [operation] at kind
    dsimp only
    rw [reached]
    cases payload with
    | sparseSwitch keys targets =>
      obtain ⟨pairs,mapped⟩ := surveyed.branchPairs keys targets all
      simp only [Bind.bind,Except.bind] at mapped
      simp only [Bind.bind,Except.bind,read,mapped,named]
      rfl
    | _ => cases kind
  | constString => cases c.string e.pool <;> rfl
  | constClass | checkCast | instanceOf | newInstance | newArray | filledNewArray => cases c.typeReference e.pool <;> rfl
  | instanceGet op | instancePut op | staticGet op | staticPut op => cases c.fieldReference e.pool <;> rfl
  | invoke op => cases c.methodReference e.pool <;> rfl
  | _ => rfl

structure Resolved where
  address : Nat
  opcode : Opcode
  instruction : Instruction

def Resolved.items (t : LabelTable) (x : Resolved) : List BodyItem :=
  DecodedBody.labelItems t x.address ++ [.instruction x.address x.opcode x.instruction]

def Resolved.Of (c : Container) (units : CodeUnits) (t : LabelTable) (x : Resolved) : Prop :=
  ∃ e, Encoded.decode units x.address = .ok e ∧ x.opcode = e.opcode ∧ e.resolve c t x.address = .ok x.instruction

def LookupFault (c : Container) (units : CodeUnits) (pc : Nat) (fault : Fault) : Prop :=
  ∃ e, Encoded.decode units pc = .ok e ∧ within (.instruction e.opcode.name pc) (e.lookup c) = .error fault

theorem LookupFault.cause {pc : Nat} (failed : LookupFault c units pc fault) : ∃ cause, fault.cause = .malformed cause := by
  obtain ⟨e,-,looked⟩ := failed
  exact (lookup_inContainer e c).within _ fault looked

-- A body that hands on the instructions at `starts`: all of them and then the end, or those
-- before the first one whose look-up fails.
inductive HandsOn (c : Container) (units : CodeUnits) (t : LabelTable) (starts : List Nat) (last : List BodyItem) :
    DecodedBody → Prop where
  | all {handed : List Resolved} : handed.map Resolved.address = starts → (∀ x ∈ handed, x.Of c units t) →
      HandsOn c units t starts last ⟨handed.flatMap (Resolved.items t) ++ last,.ok ()⟩
  | upto {handed : List Resolved} {pc : Nat} {rest : List Nat} {fault : Fault} :
      starts = handed.map Resolved.address ++ pc :: rest → (∀ x ∈ handed, x.Of c units t) → LookupFault c units pc fault →
      HandsOn c units t starts last ⟨handed.flatMap (Resolved.items t) ++ DecodedBody.labelItems t pc,.error fault⟩

theorem HandsOn.prepend {starts : List Nat} {last : List BodyItem} {body : DecodedBody} {x : Resolved}
    (known : x.Of c units t) (hands : HandsOn c units t starts last body) :
    HandsOn c units t (x.address :: starts) last (DecodedBody.prepend (x.items t) body) := by
  have more : ∀ {handed : List Resolved}, (∀ y ∈ handed, y.Of c units t) → ∀ y ∈ x :: handed, y.Of c units t := by
    intro handed each y member
    rcases List.mem_cons.mp member with rfl | later
    · exact known
    · exact each y later
  cases hands with
  | @all handed same each =>
    rw [DecodedBody.prepend,← List.append_assoc,← List.flatMap_cons]
    exact .all (by rw [List.map_cons,same]) (more each)
  | @upto handed pc rest fault same each failed =>
    rw [DecodedBody.prepend,← List.append_assoc,← List.flatMap_cons]
    exact .upto (by rw [List.map_cons,same,List.cons_append]) (more each) failed

theorem ofBlocks_handsOn (surveyed : t.Surveyed code) {last : List BodyItem}
    (inside : ∀ block ∈ blocks, block ∈ (Walk.ofCode code.units).blocks) (ending : Except Fault Nat) :
    HandsOn c code.units t (Walk.starts ⟨blocks,ending⟩) last (DecodedBody.ofBlocks c t ⟨last,.ok ()⟩ blocks) := by
  induction blocks with
  | nil =>
    have none : ([] : List Resolved).map Resolved.address = Walk.starts ⟨[],ending⟩ := rfl
    exact .all none fun x member => nomatch member
  | cons block blocks ih =>
    have further := ih fun block member => inside block (List.mem_cons_of_mem _ member)
    cases block with
    | data address length => exact further
    | instruction pc e =>
      have here := inside _ List.mem_cons_self
      have decoded := block_decode here
      have looked := resolve_lookup (c := c) surveyed here
      unfold DecodedBody.ofBlocks
      cases resolved : e.resolve c t pc with
      | ok i => exact further.prepend (x := ⟨pc,e.opcode,i⟩) ⟨e,decoded,rfl,resolved⟩
      | error f =>
        have first : Walk.starts ⟨.instruction pc e :: blocks,ending⟩ =
            ([] : List Resolved).map Resolved.address ++ pc :: Walk.starts ⟨blocks,ending⟩ := rfl
        refine .upto first (fun x member => nomatch member) ⟨e,decoded,?_⟩
        rw [← looked,resolved]
        rfl

theorem ofCode_handsOn (surveyed : t.Surveyed code) (c : Container) :
    HandsOn c code.units t t.starts [.label t.stop t.stopLabel] (DecodedBody.ofCode c code.units t) := by
  have last : DecodedBody.last t (Walk.ofCode code.units) = ⟨[.label t.stop t.stopLabel],.ok ()⟩ := by
    simp [DecodedBody.last,surveyed.fills]
  unfold DecodedBody.ofCode
  dsimp only
  rw [last,surveyed.starts]
  exact ofBlocks_handsOn surveyed (fun _ member => member) (Walk.ofCode code.units).ending

theorem HandsOn.item {starts : List Nat} {last : List BodyItem} {body : DecodedBody}
    (hands : HandsOn c units t starts last body) (whole : body.ending = .ok ()) (start : pc ∈ starts)
    (decoded : Encoded.decode units pc = .ok e) :
    ∃ i, .instruction pc e.opcode i ∈ body.items ∧ e.resolve c t pc = .ok i := by
  cases hands with
  | upto => cases whole
  | @all handed same each =>
    rw [← same] at start
    obtain ⟨x,member,rfl⟩ := List.mem_map.mp start
    obtain ⟨f,again,opcode,resolved⟩ := each x member
    rw [decoded] at again
    cases again
    refine ⟨x.instruction,List.mem_append_left _ (List.mem_flatMap.mpr ⟨x,member,?_⟩),resolved⟩
    rw [← opcode]
    exact List.mem_append_right _ (List.mem_singleton_self _)

end Restack
