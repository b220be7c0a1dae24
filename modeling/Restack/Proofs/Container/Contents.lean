import Mathlib
import Restack.Class.OfContainer
import Restack.Proofs.Container.Lookups

namespace Restack

-- What a class definition leads to in its container, and what of it is described before any method body is
-- looked at, can only fail for what the container holds.

variable {c : Container} {x : Except Fault α} {r : Reader α}

theorem mapM_inContainer {f : α → Except Fault β} (each : ∀ a, InContainer (f a)) (items : List α) : InContainer (items.mapM f) :=
  mapM_faults (P := Cause.Stored) each items

theorem foldlM_inContainer {f : σ → α → Except Fault σ} (each : ∀ s a, InContainer (f s a)) (items : List α) (s : σ) :
    InContainer (items.foldlM f s) := foldlM_faults (P := Cause.Stored) (fun a _ s => each s a) s

namespace Reader

theorem offset_inContainer : Reader.InContainer offset := fun _ _ => inContainer_ok _

theorem size_inContainer : Reader.InContainer size := fun _ _ => inContainer_ok _

theorem reject_inContainer (cause : Malformed) : Reader.InContainer (liftM (reject cause : Except Fault α) : Reader α) :=
  lift_inContainer (inContainer_reject cause)

theorem u1_inContainer : Reader.InContainer u1 := (word_inContainer _ _).bind fun _ => pure_inContainer _

theorem uleb128_inContainer : Reader.InContainer uleb128 := by
  intro bytes offset
  unfold uleb128 unsignedLeb
  split
  · exact inContainer_ok _
  · exact inContainer_reject _

end Reader

open Reader (offset_inContainer size_inContainer reject_inContainer u1_inContainer u2_inContainer u4_inContainer
  uleb128_inContainer pure_inContainer times_inContainer valueAt_inContainer)

theorem elementsWith_inContainer {value : Reader Value} (inside : value.InContainer) :
    (Value.elementsWith value).InContainer := by
  refine uleb128_inContainer.bind fun _ => times_inContainer ?_ _
  exact uleb128_inContainer.bind fun _ => inside.bind fun _ => pure_inContainer _

theorem itemsWith_inContainer {value : Reader Value} (inside : value.InContainer) : (Value.itemsWith value).InContainer :=
  uleb128_inContainer.bind fun _ => times_inContainer inside _

theorem readNested_inContainer (depth : Nat) : (Value.readNested depth).InContainer := by
  induction depth with
  | zero => exact fun _ _ => inContainer_reject _
  | succ depth ih =>
    refine offset_inContainer.bind fun start => u1_inContainer.bind fun header => ?_
    dsimp only
    split
    · exact (itemsWith_inContainer ih).bind fun _ => pure_inContainer _
    · exact uleb128_inContainer.bind fun _ => (elementsWith_inContainer ih).bind fun _ => pure_inContainer _
    · exact pure_inContainer _
    · exact pure_inContainer _
    · split
      · exact reject_inContainer _
      · split
        · exact reject_inContainer _
        · refine (times_inContainer u1_inContainer _).bind fun bytes => ?_
          split
          · exact pure_inContainer _
          · exact reject_inContainer _

theorem readAnnot_inContainer : Annot.read.InContainer := fun bytes offset =>
  (uleb128_inContainer.bind fun _ => (elementsWith_inContainer (readNested_inContainer (Value.depthAt bytes offset))).bind
    fun _ => pure_inContainer _) bytes offset

theorem visibility_inContainer (value : UInt8) : InContainer (Visibility.ofByte value) := by
  unfold Visibility.ofByte
  split
  · exact inContainer_ok _
  · exact inContainer_ok _
  · exact inContainer_ok _
  · exact inContainer_reject _

theorem readAnnotItem_inContainer : AnnotItem.read.InContainer :=
  u1_inContainer.bind fun _ => (Reader.lift_inContainer (visibility_inContainer _)).bind fun _ =>
    readAnnot_inContainer.bind fun _ => pure_inContainer _

theorem readOffsets_inContainer : readOffsets.InContainer := by
  refine u4_inContainer.bind fun count => offset_inContainer.bind fun start => size_inContainer.bind fun available => ?_
  have rest := times_inContainer u4_inContainer count.toNat
  split
  · exact (reject_inContainer _).bind fun _ => rest
  · exact rest

theorem readDirectory_inContainer : Directory.read.InContainer := by
  refine offset_inContainer.bind fun _ => u4_inContainer.bind fun _ => u4_inContainer.bind fun fields =>
    u4_inContainer.bind fun methods => u4_inContainer.bind fun parameters => offset_inContainer.bind fun _ =>
      size_inContainer.bind fun _ => ?_
  have row : MemberRow.read.InContainer := u4_inContainer.bind fun _ => u4_inContainer.bind fun _ => pure_inContainer _
  have rows := fun n => times_inContainer row n
  split
  · exact (reject_inContainer _).bind fun _ => (rows _).bind fun _ => (rows _).bind fun _ => (rows _).bind fun _ => pure_inContainer _
  · exact (rows _).bind fun _ => (rows _).bind fun _ => (rows _).bind fun _ => pure_inContainer _

theorem readFields_inContainer (count : Nat) (previous : UInt32) : (ClassData.readFields count previous).InContainer := by
  induction count generalizing previous with
  | zero => exact pure_inContainer _
  | succ count ih =>
    exact uleb128_inContainer.bind fun _ => uleb128_inContainer.bind fun _ => (ih _).bind fun _ => pure_inContainer _

theorem readMethods_inContainer (count : Nat) (previous : UInt32) : (ClassData.readMethods count previous).InContainer := by
  induction count generalizing previous with
  | zero => exact pure_inContainer _
  | succ count ih =>
    exact uleb128_inContainer.bind fun _ => uleb128_inContainer.bind fun _ => uleb128_inContainer.bind fun _ =>
      (ih _).bind fun _ => pure_inContainer _

theorem readClassData_inContainer : ClassData.read.InContainer :=
  uleb128_inContainer.bind fun _ => uleb128_inContainer.bind fun _ => uleb128_inContainer.bind fun _ =>
    uleb128_inContainer.bind fun _ => (readFields_inContainer _ _).bind fun _ => (readFields_inContainer _ _).bind fun _ =>
      (readMethods_inContainer _ _).bind fun _ => (readMethods_inContainer _ _).bind fun _ => pure_inContainer _

namespace Container

theorem optional_inContainer {lookup : UInt32 → Except Fault α} (inside : ∀ i, InContainer (lookup i)) (index : UInt32) :
    InContainer (optional lookup index) := by
  unfold optional
  split
  · exact inContainer_ok _
  · exact (inside _).map _

theorem classDef_inContainer (c : Container) (index : Nat) : InContainer (c.classDef index) :=
  (row_inContainer _ _ _).bind fun _ => (optional_inContainer (type_inContainer c) _).bind fun _ =>
    (optional_inContainer (string_inContainer c) _).bind fun _ => (type_inContainer c _).bind fun _ =>
      (typeList_inContainer c _).bind fun _ => inContainer_ok _

theorem findClass_inContainer (c : Container) (descriptor : String) : InContainer (c.findClass descriptor) := by
  unfold findClass
  split
  · exact inContainer_ok _
  · exact (classDef_inContainer c _).map _

theorem classData_inContainer (c : Container) (d : ClassDef) : InContainer (c.classData d) := by
  unfold classData
  split
  · exact inContainer_ok _
  · exact ((valueAt_inContainer readClassData_inContainer _ _).map _).within _

theorem staticValues_inContainer (c : Container) (d : ClassDef) : InContainer (c.staticValues d) := by
  unfold staticValues
  split
  · exact inContainer_ok _
  · have inside : Value.readArray.InContainer := fun bytes offset =>
      itemsWith_inContainer (readNested_inContainer (Value.depthAt bytes offset)) bytes offset
    exact (valueAt_inContainer inside _ _).within _

theorem annotationsDirectory_inContainer (c : Container) (d : ClassDef) : InContainer (c.annotationsDirectory d) := by
  unfold annotationsDirectory
  split
  · exact inContainer_ok _
  · exact ((valueAt_inContainer readDirectory_inContainer _ _).map _).within _

theorem annotSet_inContainer (c : Container) (offset : UInt32) : InContainer (c.annotSet offset) := by
  unfold annotSet
  split
  · exact inContainer_ok _
  · refine (valueAt_inContainer readOffsets_inContainer _ _).bind fun entries => mapM_inContainer (fun entry => ?_) _
    exact (valueAt_inContainer readAnnotItem_inContainer _ _).within _

theorem annotSetList_inContainer (c : Container) (offset : UInt32) : InContainer (c.annotSetList offset) :=
  (valueAt_inContainer readOffsets_inContainer _ _).bind fun _ => mapM_inContainer (annotSet_inContainer c) _

theorem annotsAt_inContainer (c : Container) (offset : Option UInt32) : InContainer (c.annotsAt offset) := by
  unfold annotsAt
  split
  · exact inContainer_ok _
  · exact annotSet_inContainer c _

end Container

open Container (annotsAt_inContainer annotationsDirectory_inContainer findClass_inContainer)

theorem internalNameOf_inContainer (descriptor : String) : InContainer (internalNameOf descriptor) :=
  (ofText_inContainer _).bind fun _ => inContainer_ok _

theorem typeNames_inContainer (c : Container) (values : List Value) : InContainer (SystemInfo.typeNames c values) := by
  induction values with
  | nil => exact inContainer_ok _
  | cons value rest ih =>
    cases value with
    | type index =>
      exact (type_inContainer c _).bind fun _ => (internalNameOf_inContainer _).bind fun _ => ih.bind fun _ => inContainer_ok _
    | _ => exact ih

theorem listedTypes_inContainer (c : Container) (value : Option Value) : InContainer (SystemInfo.listedTypes c value) := by
  unfold SystemInfo.listedTypes
  split
  · exact typeNames_inContainer c _
  · exact inContainer_ok _

theorem joinStrings_inContainer (c : Container) (values : List Value) : InContainer (SystemInfo.joinStrings c values) := by
  induction values with
  | nil => exact inContainer_ok _
  | cons value rest ih =>
    cases value with
    | string index => exact (string_inContainer c _).bind fun _ => ih.bind fun _ => inContainer_ok _
    | _ => exact ih

theorem innerInfo_inContainer (c : Container) (a : Annot) : InContainer (SystemInfo.innerInfo c a) := by
  unfold SystemInfo.innerInfo
  dsimp only
  split
  · exact (string_inContainer c _).bind fun _ => (inContainer_ok _).bind fun _ => inContainer_ok _
  · exact (inContainer_ok _).bind fun _ => inContainer_ok _

theorem add_inContainer (c : Container) (s : SystemInfo) (a : Annot) : InContainer (s.add c a) := by
  unfold SystemInfo.add
  refine (type_inContainer c _).bind fun type => ?_
  split
  · split
    · exact (joinStrings_inContainer c _).bind fun _ => inContainer_ok _
    · exact inContainer_ok _
  · exact (listedTypes_inContainer c _).bind fun _ => inContainer_ok _
  · exact (listedTypes_inContainer c _).bind fun _ => inContainer_ok _
  · exact (innerInfo_inContainer c _).bind fun _ => inContainer_ok _
  · split
    · exact (type_inContainer c _).bind fun _ => (internalNameOf_inContainer _).bind fun _ => inContainer_ok _
    · exact inContainer_ok _
  · split
    · exact (method_inContainer c _).bind fun _ => (internalNameOf_inContainer _).bind fun _ => inContainer_ok _
    · exact inContainer_ok _
  · exact inContainer_ok _
  · exact inContainer_ok _

theorem systemInfo_inContainer (c : Container) (items : List AnnotItem) : InContainer (SystemInfo.ofItems c items) := by
  unfold SystemInfo.ofItems
  exact foldlM_inContainer (fun s (item : AnnotItem) => add_inContainer c s item.annot) _ _

theorem userAnnots_inContainer (c : Container) (items : List AnnotItem) : InContainer (UserAnnot.ofItems c items) := by
  refine (mapM_inContainer (fun item => ?_) _).bind fun _ => inContainer_ok _
  unfold UserAnnot.ofItem
  dsimp only
  split
  · exact (type_inContainer c _).bind fun _ => inContainer_ok _
  · exact (type_inContainer c _).bind fun _ => inContainer_ok _
  · exact inContainer_ok _

theorem body_inContainer (wanted : Bool) (inside : InContainer x) : InContainer (Interest.body wanted x) := by
  unfold Interest.body
  split
  · exact inside.map _
  · exact inContainer_ok _

namespace Container

mutual

theorem valueParts_inContainer (c : Container) (w : Interest) (name : Option String) (value : Value) :
    InContainer (c.valueParts w name value) := by
  cases value with
  | string index =>
    rw [valueParts]
    exact (string_inContainer c _).bind fun _ => inContainer_ok _
  | type index =>
    rw [valueParts]
    exact (type_inContainer c _).bind fun _ => inContainer_ok _
  | enum index =>
    rw [valueParts]
    exact (field_inContainer c _).bind fun _ => inContainer_ok _
  | annot index elements =>
    rw [valueParts]
    exact (type_inContainer c _).bind fun _ => (body_inContainer _ (elementParts_inContainer c w elements)).bind fun _ => inContainer_ok _
  | array items =>
    rw [valueParts]
    exact (body_inContainer _ (itemParts_inContainer c w items)).bind fun _ => inContainer_ok _
  | _ =>
    rw [valueParts]
    exact inContainer_ok _

theorem itemParts_inContainer (c : Container) (w : Interest) (items : List Value) : InContainer (c.itemParts w items) := by
  cases items with
  | nil =>
    rw [itemParts]
    exact inContainer_ok _
  | cons first rest =>
    rw [itemParts]
    exact (valueParts_inContainer c w none first).bind fun _ => (itemParts_inContainer c w rest).bind fun _ => inContainer_ok _

theorem elementParts_inContainer (c : Container) (w : Interest) (elements : List (UInt32 × Value)) :
    InContainer (c.elementParts w elements) := by
  cases elements with
  | nil =>
    rw [elementParts]
    exact inContainer_ok _
  | cons first rest =>
    obtain ⟨index,value⟩ := first
    rw [elementParts]
    exact (string_inContainer c _).bind fun name => (valueParts_inContainer c w (some name) value).bind fun _ =>
      (elementParts_inContainer c w rest).bind fun _ => inContainer_ok _

end

theorem describeAnnots_inContainer (c : Container) (w : Interest) (wanted : Bool) (items : List AnnotItem) :
    InContainer (c.describeAnnots w wanted items) :=
  (userAnnots_inContainer c items).bind fun _ => mapM_inContainer (fun _ =>
    (body_inContainer _ (elementParts_inContainer c w _)).bind fun _ => inContainer_ok _) _

theorem fieldValue_inContainer (c : Container) (value : Value) : InContainer (c.fieldValue value) := by
  cases value with
  | string index => exact (string_inContainer c _).bind fun _ => inContainer_ok _
  | _ => exact inContainer_ok _

theorem memberClass_inContainer (c : Container) (name : String) : InContainer (c.memberClass name) := by
  refine (findClass_inContainer c _).bind fun found => ?_
  cases found with
  | none => exact (inContainer_ok _).bind fun _ => inContainer_ok _
  | some d =>
    exact (annotationsDirectory_inContainer c d).bind fun _ => (annotsAt_inContainer c _).bind fun _ =>
      (systemInfo_inContainer c _).bind fun _ => (inContainer_ok _).bind fun _ => inContainer_ok _

theorem describeField_inContainer (c : Container) (w : Interest) (directory : Option Directory) (entry : FieldEntry)
    (value : Option FieldValue) : InContainer (c.describeField w directory entry value) :=
  (field_inContainer c _).bind fun _ => (annotsAt_inContainer c _).bind fun _ => (systemInfo_inContainer c _).bind fun _ =>
    (body_inContainer _ (describeAnnots_inContainer c w _ _)).bind fun _ => inContainer_ok _

theorem describeFields_inContainer (c : Container) (w : Interest) (directory : Option Directory) (entries : List FieldEntry)
    (values : List Value) : InContainer (c.describeFields w directory entries values) := by
  induction entries generalizing values with
  | nil => exact inContainer_ok _
  | cons entry rest ih =>
    rw [describeFields]
    have after := fun value => (describeField_inContainer c w directory entry value).bind fun here =>
      (ih values.tail).bind fun further => inContainer_ok (here :: further)
    split
    · exact (inContainer_ok _).bind after
    · exact (fieldValue_inContainer c _).bind after

end Container

-- A stored body. Its ranges may leave the words they are stored in, but nothing is said of its code yet.

def Spared (cause : Cause) : Prop := ∀ why, cause ≠ .inexpressible why

theorem InContainer.spares (inside : InContainer x) : Faults Spared x := by
  intro f failed why same
  obtain ⟨cause,found⟩ := inside f failed
  rw [found] at same
  cases same

theorem Reader.InContainer.spares (inside : r.InContainer) : r.Faults Spared := fun bytes offset => (inside bytes offset).spares

theorem checkTries_spares (start units : Nat) (handlers : NatMap CatchHandler) (tries : List TryItem) :
    Faults Spared (CodeItem.checkTries start units handlers tries) := by
  induction tries with
  | nil => exact faults_ok _ _
  | cons range rest ih =>
    have ends : Faults Spared range.stop := by
      unfold TryItem.stop
      split
      · exact faults_ok _ _
      · intro f failed why same
        cases failed
        cases same
    have checked : Faults Spared (do
        if units < (← range.stop) then reject (.tryPastEnd range.start.toNat start)
        CodeItem.checkTries start units handlers rest) := by
      refine ends.bind fun past => ?_
      split
      · exact (inContainer_reject _).spares.bind fun _ => ih
      · exact ih
    rw [CodeItem.checkTries]
    split
    · exact (inContainer_reject _).spares.bind fun _ => checked
    · exact checked

theorem sleb128_inContainer : Reader.sleb128.InContainer := by
  intro bytes offset
  unfold Reader.sleb128
  split
  · exact inContainer_ok _
  · exact inContainer_reject _

theorem readHandler_inContainer : CatchHandler.read.InContainer := by
  refine sleb128_inContainer.bind fun size => (times_inContainer ?_ _).bind fun typed => ?_
  · exact uleb128_inContainer.bind fun _ => uleb128_inContainer.bind fun _ => pure_inContainer _
  · split
    · exact uleb128_inContainer.bind fun _ => pure_inContainer _
    · exact pure_inContainer _

theorem readHandlers_inContainer (start listed i count : Nat) (found : NatMap CatchHandler) :
    (CodeItem.readHandlers start listed i count found).InContainer := by
  induction count generalizing i found with
  | zero => exact pure_inContainer _
  | succ count ih =>
    refine offset_inContainer.bind fun here => Reader.InContainer.bind ?_ fun _ => ih _ _
    exact fun bytes offset => (readHandler_inContainer bytes offset).within _

theorem readTryItem_inContainer : TryItem.read.InContainer :=
  u4_inContainer.bind fun _ => u2_inContainer.bind fun _ => u2_inContainer.bind fun _ => pure_inContainer _

theorem readTries_spares (start units tries : Nat) : (CodeItem.readTries start units tries).Faults Spared := by
  unfold CodeItem.readTries
  split
  · exact (pure_inContainer _).spares
  · have listed : Reader.Faults Spared (do
        let tries ← Reader.times tries TryItem.read
        let listStart ← Reader.offset
        let count ← Reader.uleb128
        let handlers ← CodeItem.readHandlers start listStart 0 count.toNat []
        CodeItem.checkTries start units handlers tries
        return (tries,handlers)) :=
      (times_inContainer readTryItem_inContainer _).spares.bind fun tries => offset_inContainer.spares.bind fun listStart =>
        uleb128_inContainer.spares.bind fun count => (readHandlers_inContainer _ _ _ _ _).spares.bind fun handlers =>
          (Reader.lift_faults (checkTries_spares start units handlers tries)).bind fun _ => (pure_inContainer _).spares
    split
    · exact u2_inContainer.spares.bind fun _ => listed
    · exact listed

theorem codeItem_spares (c : Container) (offset : UInt32) : Faults Spared (c.codeItem offset) := by
  have read : CodeItem.read.Faults Spared := by
    refine offset_inContainer.spares.bind fun start => u2_inContainer.spares.bind fun registers => u2_inContainer.spares.bind fun ins =>
      u2_inContainer.spares.bind fun outs => u2_inContainer.spares.bind fun tries => u4_inContainer.spares.bind fun debugInfo => ?_
    have counted : ∀ count available here, Reader.Faults Spared (do
        if available < here + UInt32.toNat count * 2 then (reject (.codePastEnd start) : Except Fault Unit)
        let units ← Reader.exactly Reader.u2 count.toNat
        let found ← CodeItem.readTries start count.toNat tries.toNat
        return ({ registers, ins, outs, debugInfo, units := units.val.toArray, tries := found.1, handlers := found.2,
                  counted := Nat.lt_of_le_of_lt (Nat.le_of_eq units.property) count.toNat_lt } : CodeItem)) := by
      intro count available here
      have body := (Reader.exactly_inContainer u2_inContainer count.toNat).spares.bind fun units =>
        (readTries_spares start count.toNat tries.toNat).bind fun found => (pure_inContainer
          ({ registers, ins, outs, debugInfo, units := units.val.toArray, tries := found.1, handlers := found.2,
             counted := Nat.lt_of_le_of_lt (Nat.le_of_eq units.property) count.toNat_lt } : CodeItem)).spares
      split
      · exact (reject_inContainer _).spares.bind fun _ => body
      · exact body
    have sized := u4_inContainer.spares.bind fun count => offset_inContainer.spares.bind fun here => size_inContainer.spares.bind fun available =>
      counted count available here
    split
    · exact (reject_inContainer _).spares.bind fun _ => sized
    · exact sized
  exact Reader.valueAt_faults read _ _

end Restack
