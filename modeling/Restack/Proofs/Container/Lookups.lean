import Mathlib
import Restack.Container.Reference
import Restack.Proofs.Outcome

namespace Restack

-- What is looked up in a container can only fail for what the container holds, never
-- for the code that asks.

variable {P : Cause → Prop} {c : Container} {index : UInt32} {x : Except Fault α} {r : Reader α}

def Faults (P : Cause → Prop) (x : Except Fault α) : Prop := ∀ f, x = .error f → P f.cause

theorem faults_ok (P : Cause → Prop) (a : α) : Faults P (.ok a) := fun _ failed => nomatch failed

theorem Faults.bind {f : α → Except Fault β} (first : Faults P x) (rest : ∀ a, Faults P (f a)) : Faults P (x >>= f) := by
  cases x with
  | ok a => exact rest a
  | error g =>
    intro h failed
    cases failed
    exact first g rfl

theorem Faults.within (inside : Faults P x) (context : Context) : Faults P (within context x) := by
  intro f failed
  cases x with
  | ok a => cases failed
  | error g =>
    cases failed
    exact inside g rfl

theorem mapM_faults {f : α → Except Fault β} (each : ∀ a, Faults P (f a)) (items : List α) : Faults P (items.mapM f) := by
  induction items with
  | nil => exact faults_ok P []
  | cons first rest ih =>
    rw [List.mapM_cons]
    exact (each first).bind fun _ => ih.bind fun _ => faults_ok P _

theorem foldlM_faults {f : σ → α → Except Fault σ} {items : List α} (each : ∀ a ∈ items, ∀ s, Faults P (f s a)) (s : σ) :
    Faults P (items.foldlM f s) := by
  induction items generalizing s with
  | nil => exact faults_ok P s
  | cons first rest ih =>
    obtain ⟨here,others⟩ := List.forall_mem_cons.mp each
    rw [List.foldlM_cons]
    exact (here s).bind (ih others)

def Cause.Stored (cause : Cause) : Prop := ∃ why, cause = .malformed why

def InContainer (x : Except Fault α) : Prop := ∀ f, x = .error f → ∃ cause, f.cause = .malformed cause

theorem inContainer_ok (a : α) : InContainer (.ok a) := faults_ok Cause.Stored a

theorem inContainer_reject (cause : Malformed) : InContainer (reject cause : Except Fault α) := by
  intro f failed
  cases failed
  exact ⟨cause,rfl⟩

theorem InContainer.within (inside : InContainer x) (context : Context) : InContainer (within context x) :=
  Faults.within (P := Cause.Stored) inside context

theorem InContainer.bind {f : α → Except Fault β} (first : InContainer x) (rest : ∀ a, InContainer (f a)) :
    InContainer (x >>= f) := Faults.bind (P := Cause.Stored) first rest

theorem InContainer.map (inside : InContainer x) (f : α → β) : InContainer (x.map f) := by
  intro g failed
  cases x with
  | ok a => cases failed
  | error h =>
    cases failed
    exact inside g rfl

theorem row_inContainer (table : Table) (rows : Array α) (n : Nat) : InContainer (Container.row table rows n) := by
  unfold Container.row
  split
  · exact inContainer_ok _
  · exact inContainer_reject _

theorem string_inContainer (c : Container) (index : UInt32) : InContainer (c.string index) := row_inContainer _ _ _

theorem type_inContainer (c : Container) (index : UInt32) : InContainer (c.type index) :=
  (row_inContainer _ _ _).bind fun _ => inContainer_ok _

def Reader.Faults (P : Cause → Prop) (r : Reader α) : Prop := ∀ bytes offset, Restack.Faults P (r bytes offset)

theorem Reader.Faults.bind {f : α → Reader β} (first : r.Faults P) (rest : ∀ a, (f a).Faults P) :
    Reader.Faults P (r >>= f) := by
  intro bytes offset g failed
  change Reader.bind r f bytes offset = .error g at failed
  unfold Reader.bind at failed
  split at failed
  · exact rest _ _ _ g failed
  · rename_i fault read
    cases failed
    exact first bytes offset g read

theorem Reader.lift_faults (inside : Restack.Faults P x) : Reader.Faults P (liftM x : Reader α) := by
  intro bytes offset g failed
  cases x with
  | ok a => cases failed
  | error f =>
    cases failed
    exact inside g rfl

theorem Reader.valueAt_faults (inside : r.Faults P) (bytes : Bytes) (offset : Nat) :
    Restack.Faults P (r.valueAt bytes offset) := by
  intro f failed
  unfold Reader.valueAt at failed
  split at failed
  · cases failed
  · rename_i fault read
    cases failed
    exact inside bytes offset f read

def Reader.InContainer (r : Reader α) : Prop := ∀ bytes offset, Restack.InContainer (r bytes offset)

theorem Reader.InContainer.bind {f : α → Reader β} (first : r.InContainer) (rest : ∀ a, (f a).InContainer) :
    Reader.InContainer (r >>= f) := Reader.Faults.bind (P := Cause.Stored) first rest

theorem Reader.pure_inContainer (a : α) : Reader.InContainer (Pure.pure a : Reader α) := fun _ _ => inContainer_ok _

theorem Reader.lift_inContainer (inside : Restack.InContainer x) : Reader.InContainer (liftM x : Reader α) :=
  Reader.lift_faults (P := Cause.Stored) inside

theorem Reader.word_inContainer (format : WordFormat) (width : Nat) : Reader.InContainer (Reader.word format width) := by
  intro bytes offset
  unfold Reader.word
  split
  · exact inContainer_reject _
  · exact inContainer_ok _

theorem Reader.u2_inContainer : Reader.InContainer u2 := (word_inContainer _ _).bind fun _ => pure_inContainer _

theorem Reader.u4_inContainer : Reader.InContainer u4 := (word_inContainer _ _).bind fun _ => pure_inContainer _

theorem Reader.times_inContainer (inside : r.InContainer) (count : Nat) : Reader.InContainer (Reader.times count r) := by
  have each : ∀ n i, Reader.InContainer (Reader.timesFrom (fun _ => r) i n) := by
    intro n
    induction n with
    | zero => exact fun _ => Reader.pure_inContainer []
    | succ n ih => exact fun i => inside.bind fun first => (ih (i + 1)).bind fun rest => Reader.pure_inContainer _
  exact each count 0

theorem Reader.exactly_inContainer (inside : r.InContainer) (count : Nat) : Reader.InContainer (Reader.exactly r count) := by
  induction count with
  | zero => exact Reader.pure_inContainer _
  | succ count ih => exact inside.bind fun first => ih.bind fun rest => Reader.pure_inContainer _

theorem Reader.valueAt_inContainer (inside : r.InContainer) (bytes : Bytes) (offset : Nat) :
    Restack.InContainer (r.valueAt bytes offset) := Reader.valueAt_faults (P := Cause.Stored) inside bytes offset

theorem typeList_inContainer (c : Container) (offset : UInt32) : InContainer (c.typeList offset) := by
  unfold Container.typeList
  split
  · exact inContainer_ok _
  · apply Reader.valueAt_inContainer
    apply Reader.u4_inContainer.bind
    intro count
    apply Reader.times_inContainer
    apply Reader.u2_inContainer.bind
    intro index
    exact Reader.lift_inContainer ((type_inContainer c _).within _)

theorem proto_inContainer (c : Container) (index : UInt32) : InContainer (c.proto index) :=
  (row_inContainer _ _ _).bind fun _ => (string_inContainer c _).bind fun _ => (type_inContainer c _).bind fun _ =>
    (typeList_inContainer c _).bind fun _ => inContainer_ok _

theorem ofText_inContainer (text : String) : InContainer (Descriptor.ofText text) := by
  unfold Descriptor.ofText
  split
  · exact inContainer_ok _
  · exact inContainer_reject _

theorem ofText_inContainer_method (text : String) : InContainer (MethodDescriptor.ofText text) := by
  unfold MethodDescriptor.ofText
  split
  · exact inContainer_ok _
  · exact inContainer_reject _

theorem typeReference_inContainer (c : Container) (index : UInt32) : InContainer (c.typeReference index) :=
  (type_inContainer c index).bind ofText_inContainer

theorem field_inContainer (c : Container) (index : UInt32) : InContainer (c.field index) :=
  (row_inContainer _ _ _).bind fun _ => (type_inContainer c _).bind fun _ => (string_inContainer c _).bind fun _ =>
    (type_inContainer c _).bind fun _ => inContainer_ok _

theorem method_inContainer (c : Container) (index : UInt32) : InContainer (c.method index) :=
  (row_inContainer _ _ _).bind fun _ => (type_inContainer c _).bind fun _ => (string_inContainer c _).bind fun _ =>
    (proto_inContainer c _).bind fun _ => inContainer_ok _

theorem fieldReference_inContainer (c : Container) (index : UInt32) : InContainer (c.fieldReference index) :=
  (field_inContainer c index).bind fun _ => (ofText_inContainer _).bind fun _ => (ofText_inContainer _).bind fun _ => inContainer_ok _

theorem methodReference_inContainer (c : Container) (index : UInt32) : InContainer (c.methodReference index) :=
  (method_inContainer c index).bind fun _ => (ofText_inContainer _).bind fun _ => (ofText_inContainer_method _).bind fun _ =>
    inContainer_ok _

end Restack
