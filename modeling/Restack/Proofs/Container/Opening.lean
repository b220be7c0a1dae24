import Mathlib
import Restack.Proofs.Container.Tables

namespace Restack

-- A container is given up only for what its bytes hold.

open Reader (offset_inContainer size_inContainer reject_inContainer u1_inContainer u4_inContainer
  uleb128_inContainer pure_inContainer valueAt_inContainer)

theorem refusal_inContainer {p : Prop} [Decidable p] {cause : Malformed} {f : Unit → Except Fault α} (rest : InContainer (f ())) :
    InContainer (if p then reject cause >>= f else f ()) := by
  split
  · exact fun _ failed => inContainer_reject cause _ failed
  · exact rest

theorem readRefusal_inContainer {p : Prop} [Decidable p] {cause : Malformed} {f : Unit → Reader α} (rest : (f ()).InContainer) :
    Reader.InContainer (if p then (liftM (reject cause : Except Fault Unit) : Reader Unit) >>= f else f ()) := by
  split
  · exact fun _ _ _ failed => inContainer_reject cause _ failed
  · exact rest

theorem take_inContainer (length : Nat) : (Reader.take length).InContainer := by
  intro bytes offset
  unfold Reader.take
  split
  · exact inContainer_reject _
  · exact inContainer_ok _

theorem check_inContainer (fileSize headerSize endianTag available : Nat) :
    InContainer (Header.check fileSize headerSize endianTag available) := by
  unfold Header.check
  apply refusal_inContainer
  apply refusal_inContainer
  apply refusal_inContainer
  split
  · exact inContainer_reject _
  · exact inContainer_ok _

theorem readSection_inContainer : Section.read.InContainer := u4_inContainer.bind fun _ => u4_inContainer.bind fun _ => pure_inContainer _

theorem readHeader_inContainer : Header.read.InContainer := by
  apply size_inContainer.bind
  intro available
  apply readRefusal_inContainer
  apply (take_inContainer 8).bind
  intro magic
  apply readRefusal_inContainer
  apply u4_inContainer.bind
  intro checksum
  apply (take_inContainer 20).bind
  intro signature
  apply u4_inContainer.bind
  intro fileSize
  apply u4_inContainer.bind
  intro headerSize
  apply u4_inContainer.bind
  intro endianTag
  apply (Reader.lift_inContainer (check_inContainer _ _ _ _)).bind
  intro _
  have row := readSection_inContainer
  exact row.bind fun _ => u4_inContainer.bind fun _ => row.bind fun _ => row.bind fun _ => row.bind fun _ => row.bind fun _ =>
    row.bind fun _ => row.bind fun _ => row.bind fun _ => pure_inContainer _

theorem readTerminated_inContainer (fuel : Nat) : (readTerminated fuel).InContainer := by
  induction fuel with
  | zero => exact fun _ _ => inContainer_reject _
  | succ fuel ih =>
    apply u1_inContainer.bind
    intro b
    split
    · exact pure_inContainer _
    · exact ih.bind fun _ => pure_inContainer _

theorem readString_inContainer : readString.InContainer := by
  apply offset_inContainer.bind
  intro start
  apply uleb128_inContainer.bind
  intro declared
  apply offset_inContainer.bind
  intro here
  apply size_inContainer.bind
  intro available
  apply (readTerminated_inContainer _).bind
  intro data
  split
  · exact reject_inContainer _
  · dsimp only
    split
    · exact reject_inContainer _
    · exact pure_inContainer _

namespace Container

theorem checkTable_inContainer (available : Nat) (table : Table) (s : Section) (rowSize : Nat) :
    InContainer (checkTable available table s rowSize) := by
  unfold checkTable
  split
  · exact inContainer_reject _
  · exact inContainer_ok _

theorem readTable_inContainer {row : Nat → Reader α} (inside : ∀ i, (row i).InContainer) (bytes : Bytes) (s : Section) :
    InContainer (readTable bytes s row) := by
  have each : ∀ count i, (Reader.timesFrom row i count).InContainer := by
    intro count
    induction count with
    | zero => exact fun _ => pure_inContainer []
    | succ count ih => exact fun i => (inside i).bind fun _ => (ih (i + 1)).bind fun _ => pure_inContainer _
  exact (valueAt_inContainer (each _ _) _ _).bind fun _ => inContainer_ok _

theorem stringRow_inContainer (i : Nat) : (stringRow i).InContainer := by
  apply u4_inContainer.bind
  intro place bytes offset fault failed
  unfold Reader.elsewhere at failed
  split at failed
  · cases failed
  · rename_i other read
    cases failed
    exact (readString_inContainer bytes place.toNat).within _ fault read

theorem classRows_inContainer (strings : Array String) (types : Array UInt32) (rows : Array ClassRow) (index : ClassIndex)
    (i count : Nat) : (classRows strings types rows index i count).InContainer := by
  induction count generalizing rows index i with
  | zero => exact pure_inContainer _
  | succ count ih =>
    apply offset_inContainer.bind
    intro offset
    apply (classRow_row strings types i).stored.bind
    intro row
    exact readRefusal_inContainer (ih _ _ _)

theorem ofBytes_inContainer (bytes : Bytes) : InContainer (ofBytes bytes) := by
  apply (valueAt_inContainer readHeader_inContainer _ _).bind
  intro h
  have tables : InContainer (checkTables bytes.size h) :=
    (checkTable_inContainer _ _ _ _).bind fun _ => (checkTable_inContainer _ _ _ _).bind fun _ =>
      (checkTable_inContainer _ _ _ _).bind fun _ => (checkTable_inContainer _ _ _ _).bind fun _ =>
        (checkTable_inContainer _ _ _ _).bind fun _ => checkTable_inContainer _ _ _ _
  exact tables.bind fun _ => (readTable_inContainer stringRow_inContainer _ _).bind fun _ =>
    (readTable_inContainer (fun i => (typeRow_row _ i).stored) _ _).bind fun _ =>
      (readTable_inContainer (fun i => (protoRow_row _ _ i).stored) _ _).bind fun _ =>
        (readTable_inContainer (fun i => (fieldRow_row _ _ i).stored) _ _).bind fun _ =>
          (readTable_inContainer (fun i => (methodRow_row _ _ _ i).stored) _ _).bind fun _ =>
            (valueAt_inContainer (classRows_inContainer _ _ _ _ _ _) _ _).bind fun _ => inContainer_ok _

end Container

end Restack
