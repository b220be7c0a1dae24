import Mathlib
import Restack.Proofs.Body.Resolve
import Restack.Proofs.Lowering.Run

namespace Restack

open Lowering (bare)

-- Where the cases of a switch go. Its table lists distances, and the table is kept once,
-- as the last instruction that refers to it reads it.

variable {c : Container} {code : CodeItem} {units : CodeUnits} {t : LabelTable} {e : Encoded} {i : Instruction}
  {pc a user : Nat} {payload : Payload} {label : Label} {kind : PayloadKind}

-- The table at an address as it is stored.

def CodeUnits.tableKeys (units : CodeUnits) (a : Nat) : PayloadKind → List Int
  | .packedSwitch => (List.range (units.unit (a + 1))).map fun (i : Nat) => twosComplement 32 (units.pair (a + 2)) + (i : Int)
  | .sparseSwitch => Payload.numbers units (a + 2) (units.unit (a + 1))
  | .arrayData => []

def CodeUnits.tableDistances (units : CodeUnits) (a : Nat) : PayloadKind → List Int
  | .packedSwitch => Payload.numbers units (a + 4) (units.unit (a + 1))
  | .sparseSwitch => Payload.numbers units (a + 2 + units.unit (a + 1) * 2) (units.unit (a + 1))
  | .arrayData => []

-- The cases of a decoded switch, and where it goes otherwise.

def Instruction.cases : Instruction → List (Int × Label)
  | .packedSwitch _ firstKey targets _ => targets.zipIdx.map fun x => (firstKey.toInt + x.2,x.1)
  | .sparseSwitch _ pairs _ => pairs.map fun x => (x.1.toInt,x.2)
  | _ => []

def Instruction.otherwise? : Instruction → Option Label
  | .packedSwitch _ _ _ next | .sparseSwitch _ _ next => some next
  | _ => none

-- The label that stands at a distance from an instruction.
def StandsAt (t : LabelTable) (user : Nat) (d : Int) (label : Label) : Prop :=
  ∃ b : Nat, (b : Int) = user + d ∧ t.labelAt? b = some label

def CasesFrom (t : LabelTable) (keys distances : List Int) (user : Nat) (i : Instruction) : Prop :=
  List.Forall₂ (fun row case => case.1 = row.1 ∧ StandsAt t user row.2 case.2) (keys.zip distances) i.cases

theorem CasesFrom.same {keys distances : List Int} (distinct : t.Distinct) (length : keys.length = distances.length)
    (cases : CasesFrom t keys distances user i) : CasesFrom t keys distances pc i ↔ user = pc ∨ distances = [] := by
  unfold CasesFrom at cases ⊢
  constructor
  · intro again
    cases distances with
    | nil => exact .inr rfl
    | cons d distances =>
      cases keys with
      | nil => cases length
      | cons key keys =>
        rw [List.zip_cons_cons] at cases again
        generalize i.cases = rows at cases again
        cases cases with
        | cons first _ =>
          cases again with
          | cons second _ =>
            -- One label stands at one address.
            obtain ⟨-,b,there,named⟩ := first
            obtain ⟨-,b',here,again⟩ := second
            obtain ⟨one,found,same⟩ := Option.map_eq_some_iff.mp named
            obtain ⟨two,found',same'⟩ := Option.map_eq_some_iff.mp again
            have equal := distinct.apart b b' one two found found' (same.trans same'.symm)
            dsimp only at there here
            left
            omega
  · rintro (rfl | rfl)
    · exact cases
    · rw [List.zip_nil_right] at cases ⊢
      generalize i.cases = rows at cases ⊢
      cases cases
      exact .nil

theorem target_distance {d : Int} {size b : Nat} (done : Payload.target pc d size = .ok b) : (b : Int) = pc + d := by
  simp only [Payload.target] at done
  split at done
  · simp at done
  · rename_i inside
    cases done
    simp only [Bool.or_eq_true,decide_eq_true_eq,not_or] at inside
    omega

theorem int32_twosComplement (n : Nat) : (Int32.ofInt (twosComplement 32 n)).toInt = twosComplement 32 n := by
  have small : n % 4294967296 < 4294967296 := Nat.mod_lt n (by decide)
  apply Int32.toInt_ofInt_of_le
  all_goals
    simp only [twosComplement,Nat.pow_eq,Nat.reducePow,Nat.reduceSub]
    split <;> omega

theorem numbers_int32 (units : CodeUnits) (a n : Nat) :
    ((Payload.numbers units a n).map Int32.ofInt).map Int32.toInt = Payload.numbers units a n := by
  rw [List.map_map]
  conv_rhs => rw [← List.map_id (Payload.numbers units a n)]
  apply List.map_congr_left
  intro x member
  obtain ⟨i,-,rfl⟩ := List.mem_map.mp member
  exact int32_twosComplement _

theorem table_length (units : CodeUnits) (a : Nat) (kind : PayloadKind) :
    (units.tableKeys a kind).length = (units.tableDistances a kind).length := by
  cases kind <;> simp [CodeUnits.tableKeys,CodeUnits.tableDistances,Payload.numbers]

def Payload.KeysOf (units : CodeUnits) (a : Nat) : Payload → Prop
  | .packedSwitch firstKey _ => firstKey.toInt = twosComplement 32 (units.pair (a + 2))
  | .sparseSwitch keys _ => keys.map Int32.toInt = units.tableKeys a .sparseSwitch
  | .arrayData _ => True

theorem parse_table (done : Payload.parse units a user = .ok payload) : payload.KeysOf units a ∧
    List.Forall₂ (fun d (b : Nat) => (b : Int) = user + d) (units.tableDistances a payload.kind) payload.targets := by
  simp only [Payload.parse,bind_eq_ok] at done
  obtain ⟨found,-,done⟩ := done
  split at done
  · simp at done
  · simp only [bind_eq_ok] at done
    obtain ⟨_,-,done⟩ := done
    split at done
    · simp only [bind_eq_ok,pure_eq_ok] at done
      obtain ⟨read,mapped,rfl⟩ := done
      exact ⟨int32_twosComplement _,(mapM_eq_ok.mp mapped).imp fun _ _ reached => target_distance reached⟩
    · simp only [guard_eq_ok,bind_eq_ok,pure_eq_ok] at done
      obtain ⟨-,read,mapped,rfl⟩ := done
      exact ⟨numbers_int32 units _ _,(mapM_eq_ok.mp mapped).imp fun _ _ reached => target_distance reached⟩
    · cases done
      exact ⟨trivial,.nil⟩

theorem branchLabel_labelAt (done : t.branchLabel a = .ok label) : t.labelAt? a = some label := by
  obtain ⟨entry,found,same⟩ := branchLabel_entry done
  simp [LabelTable.labelAt?,found,same]

theorem labels_stand {distances : List Int} {targets : List Nat} {labels : List Label}
    (each : List.Forall₂ (fun d (b : Nat) => (b : Int) = user + d) distances targets)
    (mapped : targets.mapM t.branchLabel = .ok labels) : List.Forall₂ (StandsAt t user) distances labels := by
  induction each generalizing labels with
  | nil =>
    cases mapped
    exact .nil
  | cons here _ ih =>
    simp only [List.mapM_cons,bind_eq_ok,pure_eq_ok] at mapped
    obtain ⟨label,named,rest,others,rfl⟩ := mapped
    exact .cons ⟨_,here,branchLabel_labelAt named⟩ (ih others)

theorem counted_cases {R : Int → Label → Prop} {distances : List Int} {labels : List Label} (first : Int) (n : Nat)
    (each : List.Forall₂ R distances labels) :
    List.Forall₂ (fun row case => case.1 = row.1 ∧ R row.2 case.2)
      (((List.range' n distances.length).map fun (i : Nat) => first + (i : Int)).zip distances)
      ((labels.zipIdx n).map fun x => (first + (x.2 : Int),x.1)) := by
  induction each generalizing n with
  | nil => exact .nil
  | cons here _ ih =>
    rw [List.length_cons,List.range'_succ,List.map_cons,List.zip_cons_cons,List.zipIdx_cons,List.map_cons]
    exact .cons ⟨rfl,here⟩ (ih (n + 1))

theorem listed_cases {keys : List Int32} {distances : List Int} {targets : List Nat} {pairs : List (Int32 × Label)}
    (each : List.Forall₂ (fun d (b : Nat) => (b : Int) = user + d) distances targets)
    (mapped : (keys.zip targets).mapM (fun x => do return (x.1,← t.branchLabel x.2)) = .ok pairs) :
    List.Forall₂ (fun row case => case.1 = row.1 ∧ StandsAt t user row.2 case.2) ((keys.map Int32.toInt).zip distances)
      (pairs.map fun x => (x.1.toInt,x.2)) := by
  induction each generalizing keys pairs with
  | nil =>
    rw [List.zip_nil_right] at mapped
    cases mapped
    rw [List.zip_nil_right]
    exact .nil
  | cons here _ ih =>
    cases keys with
    | nil =>
      cases mapped
      exact .nil
    | cons key keys =>
      simp only [List.zip_cons_cons,List.mapM_cons,bind_eq_ok,pure_eq_ok] at mapped
      obtain ⟨_,⟨label,named,rfl⟩,rest,others,rfl⟩ := mapped
      exact .cons ⟨rfl,_,here,branchLabel_labelAt named⟩ (ih others)

theorem resolve_switch (surveyed : t.Surveyed code) (member : .instruction pc e ∈ (Walk.ofCode code.units).blocks)
    (switches : isSwitch e.opcode.operation = true) (done : e.resolve c t pc = .ok i) :
    ∃ table user, Payload.target pc e.operands.literal code.units.size = .ok table ∧ LabelTable.LastUse code.units table user ∧
      CasesFrom t (CodeUnits.tableKeys code.units table (CodeReferences.payloadKind e.opcode.operation))
        (CodeUnits.tableDistances code.units table (CodeReferences.payloadKind e.opcode.operation)) user i ∧
      i.otherwise? = t.labelAt? (pc + e.units) ∧ i.otherwise?.isSome := by
  have format : e.opcode.format = .f31t := by
    simpa [Opcode.layoutFits,switches] using (Bool.and_eq_true_iff.mp (blocks_fit member)).2
  obtain ⟨table,payload,user,reached,there,read,kind,last,parsed,-⟩ := surveyed.table member format
  obtain ⟨keys,distances⟩ := parse_table parsed
  refine ⟨table,user,reached,last,?_⟩
  rw [← kind]
  unfold Encoded.resolve at done
  cases operation : e.opcode.operation with
  | packedSwitch =>
    simp only [operation,there,read,bind_eq_ok,Except.ok.injEq,exists_eq_left'] at done
    cases payload with
    | packedSwitch firstKey targets =>
      simp only [bind_eq_ok,pure_eq_ok] at done
      obtain ⟨labels,mapped,next,default,rfl⟩ := done
      refine ⟨?_,(branchLabel_labelAt default).symm,rfl⟩
      have counted := counted_cases firstKey.toInt 0 (labels_stand distances mapped)
      rw [show firstKey.toInt = _ from keys,← table_length] at counted
      simpa [CasesFrom,Instruction.cases,CodeUnits.tableKeys,Payload.kind,List.range_eq_range',
        show firstKey.toInt = _ from keys] using counted
    | _ => simp [operation,Payload.kind,CodeReferences.payloadKind] at kind
  | sparseSwitch =>
    simp only [operation,there,read,bind_eq_ok,Except.ok.injEq,exists_eq_left'] at done
    cases payload with
    | sparseSwitch listed targets =>
      simp only [bind_eq_ok,pure_eq_ok] at done
      obtain ⟨pairs,mapped,next,default,rfl⟩ := done
      refine ⟨?_,(branchLabel_labelAt default).symm,rfl⟩
      have rows := listed_cases distances mapped
      rwa [show listed.map Int32.toInt = _ from keys] at rows
    | _ => simp [operation,Payload.kind,CodeReferences.payloadKind] at kind
  | _ => simp [operation,isSwitch] at switches

-- In a body that is handed on as a whole every switch has the cases of its table, with the
-- distances counted from the last instruction that refers to the table. So its own cases
-- are right exactly if it is that instruction, or has none.
theorem switch_cases_of_last_use (scanned : LabelTable.scan code = .ok t) (addresses : List UInt32)
    (whole : (DecodedBody.ofCode c code.units (t.ensureAll addresses)).ending = .ok ())
    (member : .instruction pc e ∈ (Walk.ofCode code.units).blocks) (switches : isSwitch e.opcode.operation = true) :
    ∃ labels i table user keys distances, labels = t.ensureAll addresses ∧
      (∀ opcode j, .instruction pc opcode j ∈ (DecodedBody.ofCode c code.units labels).items ↔ opcode = e.opcode ∧ j = i) ∧
      Payload.target pc e.operands.literal code.units.size = .ok table ∧ LabelTable.LastUse code.units table user ∧
      keys = CodeUnits.tableKeys code.units table (CodeReferences.payloadKind e.opcode.operation) ∧
      distances = CodeUnits.tableDistances code.units table (CodeReferences.payloadKind e.opcode.operation) ∧
      keys.length = distances.length ∧ CasesFrom labels keys distances user i ∧
      i.otherwise? = labels.labelAt? (pc + e.units) ∧ i.otherwise?.isSome ∧
      (CasesFrom labels keys distances pc i ↔ user = pc ∨ distances = []) := by
  have surveyed := (LabelTable.scan_surveyed scanned).ensureAll addresses
  have decoded := block_decode member
  obtain ⟨i,present,resolved⟩ := (ofCode_handsOn surveyed c).item whole (surveyed.starts ▸ mem_starts.mpr ⟨e,member⟩) decoded
  obtain ⟨table,user,reached,last,cases,default,known⟩ := resolve_switch surveyed member switches resolved
  refine ⟨_,i,table,user,_,_,rfl,?_,reached,last,rfl,rfl,table_length _ _ _,cases,default,known,
    cases.same surveyed.laid.distinct (table_length _ _ _)⟩
  intro opcode j
  constructor
  · intro item
    obtain ⟨f,other,again,rfl⟩ := ofCode_items surveyed.laid item
    rw [block_decode other] at decoded
    cases decoded
    rw [resolved] at again
    cases again
    exact ⟨rfl,rfl⟩
  · rintro ⟨rfl,rfl⟩
    exact present

-- Two switches, at addresses 0 and 3, that share the table at address 8. It has one case, at
-- distance 3.
def sharedTable : CodeItem where
  registers := 1
  ins := 1
  outs := 0
  debugInfo := 0
  units := #[0x002b,0x0008,0x0000,0x002b,0x0005,0x0000,0x000e,0x000e,0x0100,0x0001,0x0000,0x0000,0x0003,0x0000]
  tries := []
  handlers := []

theorem switch_cases_of_last_use_sharedTable :
    ∃ t e, LabelTable.scan sharedTable = .ok t ∧ (DecodedBody.ofCode bare sharedTable.units t).ending = .ok () ∧
      .instruction 0 e ∈ (Walk.ofCode sharedTable.units).blocks ∧ isSwitch e.opcode.operation = true ∧
      ∃ labels i table user keys distances, labels = t.ensureAll [] ∧
        (∀ opcode j, .instruction 0 opcode j ∈ (DecodedBody.ofCode bare sharedTable.units labels).items ↔
          opcode = e.opcode ∧ j = i) ∧
        Payload.target 0 e.operands.literal sharedTable.units.size = .ok table ∧
        LabelTable.LastUse sharedTable.units table user ∧
        keys = CodeUnits.tableKeys sharedTable.units table (CodeReferences.payloadKind e.opcode.operation) ∧
        distances = CodeUnits.tableDistances sharedTable.units table (CodeReferences.payloadKind e.opcode.operation) ∧
        keys.length = distances.length ∧ CasesFrom labels keys distances user i ∧
        i.otherwise? = labels.labelAt? (0 + e.units) ∧ i.otherwise?.isSome ∧
        (CasesFrom labels keys distances 0 i ↔ user = 0 ∨ distances = []) := by
  obtain ⟨t,scanned,whole⟩ : ∃ t, LabelTable.scan sharedTable = .ok t ∧
      (DecodedBody.ofCode bare sharedTable.units t).ending = .ok () := ⟨_,rfl,rfl⟩
  obtain ⟨e,member,switches⟩ : ∃ e, .instruction 0 e ∈ (Walk.ofCode sharedTable.units).blocks ∧
      isSwitch e.opcode.operation = true := ⟨_,List.mem_cons_self,rfl⟩
  exact ⟨t,e,scanned,whole,member,switches,switch_cases_of_last_use scanned [] whole member switches⟩

-- The case of the switch at address 0 belongs to address 3, which has label 2. It goes to
-- label 3, at the same distance from the other switch.
theorem sharedTable_misdirected :
    ∃ t opcode, LabelTable.scan sharedTable = .ok t ∧ (DecodedBody.ofCode bare sharedTable.units t).ending = .ok () ∧
      (DecodedBody.ofCode bare sharedTable.units t).items[1]? =
        some (.instruction 0 opcode (.packedSwitch 0 0 [⟨3⟩] ⟨2⟩)) ∧
      CodeUnits.tableDistances sharedTable.units 8 .packedSwitch = [3] ∧
      t.labelAt? (0 + 3) = some ⟨2⟩ ∧ t.labelAt? (3 + 3) = some ⟨3⟩ :=
  ⟨_,_,rfl,rfl,rfl,rfl,rfl,rfl⟩

end Restack
