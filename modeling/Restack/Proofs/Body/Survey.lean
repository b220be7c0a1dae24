import Mathlib
import Restack.Proofs.Body.Targets

namespace Restack

-- What the first pass has checked of a body: its blocks fill the code, control goes to
-- instructions or to the end only, and each data block is there as its last user reads it.

variable {code : CodeItem} {units : CodeUnits} {t u : LabelTable} {e : Encoded} {pc a b : Nat} {block : Block} {payload : Payload}

theorem parse_kind (done : Payload.parse units a b = .ok payload) : Payload.kindOf? (units.unit a) = some payload.kind := by
  simp only [Payload.parse,bind_eq_ok] at done
  obtain ⟨found,head,done⟩ := done
  simp only [Payload.block?] at head
  split at head
  · cases head
    simp at done
  · rename_i kind known
    simp only [bind_eq_ok,pure_eq_ok] at head
    obtain ⟨_,-,rfl⟩ := head
    rw [known]
    simp only [bind_eq_ok] at done
    obtain ⟨_,-,done⟩ := done
    split at done
    · simp only [bind_eq_ok,pure_eq_ok] at done
      obtain ⟨_,-,rfl⟩ := done
      rfl
    · simp only [guard_eq_ok,bind_eq_ok,pure_eq_ok] at done
      obtain ⟨-,_,-,rfl⟩ := done
      rfl
    · cases done
      rfl

-- The instructions that refer to data blocks, in their order.

def Block.uses (size : Nat) (block : Block) : List PayloadUse :=
  match CodeReferences.ofBlock size block with
  | .ok found => found.payloads
  | .error _ => []

def CodeUnits.uses (units : CodeUnits) : List PayloadUse :=
  (Walk.ofCode units).blocks.flatMap (Block.uses units.size)

theorem mapM_flatMap {f : α → Except Fault β} {g : β → List γ} {h : α → List γ} {items : List α} {results : List β}
    (done : items.mapM f = .ok results) (same : ∀ a b, f a = .ok b → h a = g b) : items.flatMap h = results.flatMap g := by
  induction items generalizing results with
  | nil =>
    cases done
    rfl
  | cons first rest ih =>
    simp only [List.mapM_cons,bind_eq_ok,pure_eq_ok] at done
    obtain ⟨head,one,tail,others,rfl⟩ := done
    rw [List.flatMap_cons,List.flatMap_cons,same first head one,ih others]

theorem ofWalk_uses {references : CodeReferences} (done : CodeReferences.ofWalk units.size (Walk.ofCode units) = .ok references) :
    references.payloads = units.uses ∧ (Walk.ofCode units).ending = .ok units.size := by
  simp only [CodeReferences.ofWalk,bind_eq_ok,guard_eq_ok,pure_eq_ok] at done
  obtain ⟨found,mapped,stop,ends,same,rfl⟩ := done
  refine ⟨(mapM_flatMap mapped ?_).symm,?_⟩
  · intro block references here
    simp [Block.uses,here]
  · rw [ends,Decidable.not_not.mp same]

theorem block_use {use : PayloadUse} {size : Nat} (member : use ∈ block.uses size) :
    ∃ e, block = .instruction use.user e ∧ e.opcode.format = .f31t ∧
      Payload.target use.user e.operands.literal size = .ok use.address ∧
      use.kind = CodeReferences.payloadKind e.opcode.operation := by
  unfold Block.uses at member
  split at member
  · rename_i found here
    cases block with
    | data address length =>
      cases here
      cases member
    | instruction pc e =>
      cases format : e.opcode.format <;>
        simp only [CodeReferences.ofBlock,format,bind_eq_ok,pure_eq_ok,guard_eq_ok,Except.ok.injEq] at here
      case f31t =>
        obtain ⟨address,reached,-,rfl⟩ := here
        obtain rfl := List.mem_singleton.mp member
        exact ⟨e,rfl,format,reached,rfl⟩
      case f10t | f20t | f30t | f21t | f22t =>
        obtain ⟨address,-,rfl⟩ := here
        cases member
      all_goals
        subst here
        cases member
  · cases member

theorem use_mem {found : CodeReferences} (member : .instruction pc e ∈ (Walk.ofCode units).blocks)
    (format : e.opcode.format = .f31t) (here : CodeReferences.ofBlock units.size (.instruction pc e) = .ok found) :
    ∃ address, Payload.target pc e.operands.literal units.size = .ok address ∧
      ⟨pc,CodeReferences.payloadKind e.opcode.operation,address⟩ ∈ units.uses := by
  have uses : Block.uses units.size (.instruction pc e) = found.payloads := by simp [Block.uses,here]
  simp only [CodeReferences.ofBlock,format,bind_eq_ok,guard_eq_ok,pure_eq_ok] at here
  obtain ⟨address,reached,-,rfl⟩ := here
  exact ⟨address,reached,List.mem_flatMap.mpr ⟨_,member,uses ▸ List.mem_singleton_self _⟩⟩

theorem uses_sorted (units : CodeUnits) : units.uses.Pairwise fun one two => one.user < two.user := by
  unfold CodeUnits.uses
  refine List.pairwise_flatMap.mpr ⟨?_,(go_sorted units units.size 0).imp ?_⟩
  · intro block member
    cases block with
    | data address length => exact .nil
    | instruction pc e =>
      unfold Block.uses
      split
      · rename_i found here
        cases format : e.opcode.format <;>
          simp only [CodeReferences.ofBlock,format,bind_eq_ok,pure_eq_ok,guard_eq_ok,Except.ok.injEq] at here
        case f31t =>
          obtain ⟨address,-,-,rfl⟩ := here
          exact List.pairwise_singleton _ _
        case f10t | f20t | f30t | f21t | f22t =>
          obtain ⟨address,-,rfl⟩ := here
          exact .nil
        all_goals
          subst here
          exact .nil
      · exact .nil
  · intro one two less first member second later
    obtain ⟨e,rfl,-⟩ := block_use member
    obtain ⟨f,rfl,-⟩ := block_use later
    exact less

namespace LabelTable

def payload? (t : LabelTable) (a : Nat) : Option Payload := (t.entry? a).bind LabelEntry.payload

@[simp] theorem payload_of_ensure (t : LabelTable) (a b : Nat) : (t.ensure a).payload? b = t.payload? b := by
  unfold payload?
  rw [entry_ensure]
  split
  · rename_i both
    rw [both.1,both.2]
    rfl
  · rfl

theorem payload_of_change (t : LabelTable) (a b : Nat) (f : LabelEntry → LabelEntry) :
    (t.change a f).payload? b = if b = a then ( entry? (t.ensure a) b).bind fun entry => (f entry).payload else t.payload? b := by
  unfold payload?
  rw [entry_change]
  split
  · cases entry? (t.ensure a) b <;> rfl
  · exact payload_of_ensure t a b

@[simp] theorem payload_of_markJump (t : LabelTable) (a b : Nat) : (t.markJump a).payload? b = t.payload? b := by
  rw [markJump_eq,payload_of_change]
  split
  · exact payload_of_ensure t a b
  · rfl

theorem payload_of_setPayload (t : LabelTable) (a b : Nat) (payload : Payload) :
    (t.setPayload a payload).payload? b = if b = a then some payload else t.payload? b := by
  rw [setPayload_eq,payload_of_change]
  split
  · rename_i same
    obtain ⟨entry,found⟩ := ensure_has t a
    rw [same,found]
    rfl
  · rfl

theorem kept_payload (a : Nat) (found : Option Payload) : Kept fun t => t.payload? a = found :=
  ⟨fun t b _ same => (payload_of_ensure t b a).trans same,fun t b _ same => (payload_of_markJump t b a).trans same⟩

theorem kept_starts (starts : List Nat) : Kept fun t => t.starts = starts :=
  ⟨fun t a _ same => (ensure_starts t a).trans same,fun t a _ same => (ensure_starts t a).trans same⟩

theorem attachAll_payload {uses : List PayloadUse} {cases : List Nat} (done : attachAll units t uses = .ok (u,cases)) (a : Nat) :
    (u.payload? a = t.payload? a ∧ ∀ use ∈ uses, use.address ≠ a) ∨
    ∃ before use after payload, uses = before ++ use :: after ∧ use.address = a ∧ (∀ later ∈ after, later.address ≠ a) ∧
      Payload.parse units a use.user = .ok payload ∧ u.payload? a = some payload := by
  induction uses generalizing t cases with
  | nil =>
    cases done
    exact .inl ⟨rfl,fun use member => nomatch member⟩
  | cons use rest ih =>
    simp only [attachAll,attach,bind_eq_ok,guard_eq_ok,pure_eq_ok,Prod.mk.injEq] at done
    obtain ⟨⟨m,here⟩,⟨payload,parsed,-,rfl,rfl⟩,⟨n,further⟩,others,rfl,rfl⟩ := done
    rcases ih others with ⟨same,none⟩ | ⟨before,last,after,held,rfl,there,beyond,read,found⟩
    · rw [payload_of_setPayload] at same
      by_cases mine : a = use.address
      · subst mine
        exact .inr ⟨[],use,rest,payload,rfl,rfl,none,parsed,by rw [same,if_pos rfl]⟩
      · refine .inl ⟨by rw [same,if_neg mine],?_⟩
        intro other member
        rcases List.mem_cons.mp member with rfl | later
        · exact fun same => mine same.symm
        · exact none other later
    · exact .inr ⟨use :: before,last,after,held,rfl,there,beyond,read,found⟩

theorem attachAll_kinds {uses : List PayloadUse} {cases : List Nat} (done : attachAll units t uses = .ok (u,cases))
    {use : PayloadUse} (member : use ∈ uses) : Payload.kindOf? (units.unit use.address) = some use.kind := by
  induction uses generalizing t cases with
  | nil => cases member
  | cons first rest ih =>
    simp only [attachAll,attach,bind_eq_ok,guard_eq_ok,pure_eq_ok,Prod.mk.injEq] at done
    obtain ⟨⟨m,here⟩,⟨payload,parsed,same,rfl,rfl⟩,⟨n,further⟩,others,rfl,rfl⟩ := done
    rcases List.mem_cons.mp member with rfl | later
    · rw [parse_kind parsed,Decidable.not_not.mp same]
    · exact ih others later

theorem attachAll_starts {uses : List PayloadUse} {cases : List Nat} (done : attachAll units t uses = .ok (u,cases)) :
    u.starts = t.starts := by
  induction uses generalizing t cases with
  | nil =>
    cases done
    rfl
  | cons first rest ih =>
    simp only [attachAll,attach,bind_eq_ok,guard_eq_ok,pure_eq_ok,Prod.mk.injEq] at done
    obtain ⟨⟨m,here⟩,⟨payload,-,-,rfl,rfl⟩,⟨n,further⟩,others,rfl,rfl⟩ := done
    exact (ih others).trans (ensure_starts t first.address)

-- Only instructions and the end of the code are marked.

def MarksStarts (t : LabelTable) : Prop := ∀ a, t.Marked a → a = t.stop ∨ a ∈ t.starts

theorem marked_of_ensure (marked : (t.ensure a).Marked b) : t.Marked b := by
  obtain ⟨entry,found,mark⟩ := marked
  rw [entry_ensure] at found
  split at found
  · cases found
    cases mark
  · exact ⟨entry,found,mark⟩

theorem marked_of_markJump (marked : (t.markJump a).Marked b) : b = a ∨ t.Marked b := by
  by_cases same : b = a
  · exact .inl same
  · obtain ⟨entry,found,mark⟩ := marked
    rw [markJump_eq,entry_change,if_neg same] at found
    exact .inr (marked_of_ensure ⟨entry,found,mark⟩)

theorem MarksStarts.ensure (only : t.MarksStarts) (a : Nat) : (t.ensure a).MarksStarts := by
  intro b marked
  rw [ensure_stop,ensure_starts]
  exact only b (marked_of_ensure marked)

theorem MarksStarts.markJump (only : t.MarksStarts) (here : t.Spot a) : (t.markJump a).MarksStarts := by
  intro b marked
  change b = (t.ensure a).stop ∨ b ∈ (t.ensure a).starts
  rw [ensure_stop,ensure_starts]
  rcases marked_of_markJump marked with rfl | old
  · exact here
  · exact only b old

theorem kept_marksStarts : Kept MarksStarts :=
  ⟨fun _ a _ only => only.ensure a,fun _ _ spot only => only.markJump spot⟩

theorem attachAll_marked {uses : List PayloadUse} {cases : List Nat} (done : attachAll units t uses = .ok (u,cases))
    (marked : u.Marked a) : t.Marked a := by
  induction uses generalizing t cases with
  | nil =>
    cases done
    exact marked
  | cons first rest ih =>
    simp only [attachAll,attach,bind_eq_ok,guard_eq_ok,pure_eq_ok,Prod.mk.injEq] at done
    obtain ⟨⟨m,here⟩,⟨payload,-,-,rfl,rfl⟩,⟨n,further⟩,others,rfl,rfl⟩ := done
    obtain ⟨entry,found,mark⟩ := ih others
    rw [setPayload_eq,entry_change] at found
    split at found
    · obtain ⟨old,was,rfl⟩ := Option.map_eq_some_iff.mp found
      exact marked_of_ensure ⟨old,was,mark⟩
    · exact marked_of_ensure ⟨entry,found,mark⟩

structure LastUse (units : CodeUnits) (a user : Nat) : Prop where
  here : ∃ use ∈ units.uses, use.user = user ∧ use.address = a
  last : ∀ use ∈ units.uses, use.address = a → use.user ≤ user

structure Surveyed (code : CodeItem) (t : LabelTable) : Prop where
  laid : t.Laid code
  fills : (Walk.ofCode code.units).ending = .ok code.units.size
  starts : t.starts = (Walk.ofCode code.units).starts
  marks : t.MarksStarts
  kinds : ∀ use ∈ CodeUnits.uses code.units, Payload.kindOf? (CodeUnits.unit code.units use.address) = some use.kind
  held : ∀ use ∈ CodeUnits.uses code.units, (t.payload? use.address).isSome
  read : ∀ a payload, t.payload? a = some payload →
    ∃ user, LastUse code.units a user ∧ Payload.parse code.units a user = .ok payload

theorem Surveyed.ensure (surveyed : Surveyed code t) (word : a < 2 ^ 32) : Surveyed code (t.ensure a) where
  laid := surveyed.laid.ensure word
  fills := surveyed.fills
  starts := (ensure_starts t a).trans surveyed.starts
  marks := surveyed.marks.ensure a
  kinds := surveyed.kinds
  held := fun use member => by
    rw [payload_of_ensure]
    exact surveyed.held use member
  read := fun b payload found => surveyed.read b payload (by rwa [payload_of_ensure] at found)

def ensureAll (t : LabelTable) (addresses : List UInt32) : LabelTable := addresses.foldl (fun t a => t.ensure a.toNat) t

theorem Surveyed.ensureAll (surveyed : Surveyed code t) (addresses : List UInt32) : Surveyed code (t.ensureAll addresses) := by
  induction addresses generalizing t with
  | nil => exact surveyed
  | cons a rest ih => exact ih (surveyed.ensure a.toNat_lt)

theorem scan_surveyed (done : scan code = .ok t) : Surveyed code t := by
  have laid := scan_laid done
  simp only [scan,bind_eq_ok,pure_eq_ok] at done
  obtain ⟨references,referred,⟨attached,cases⟩,attaching,marked,marking,tried,trying,rfl⟩ := done
  obtain ⟨uses,fills⟩ := ofWalk_uses referred
  rw [uses] at attaching
  have starts : attached.starts = (Walk.ofCode code.units).starts := (attachAll_starts attaching).trans (ensure_starts _ 0)
  have marks : attached.MarksStarts := by
    intro a found
    obtain ⟨entry,none,-⟩ := marked_of_ensure (attachAll_marked attaching found)
    cases none
  have handlers : tried.MarksStarts := kept_marksStarts.markTries (kept_marksStarts.markTargets marks marking) trying
  have payloads : ∀ a, tried.payload? a = attached.payload? a := fun a =>
    (kept_payload a _).markTries ((kept_payload a _).markTargets rfl marking) trying
  have nothing : ∀ a, ((empty (Walk.ofCode code.units) code.units.size).ensure 0).payload? a = none := by
    intro a
    rw [payload_of_ensure]
    rfl
  refine ⟨laid,fills,?_,handlers.ensure _,fun use member => attachAll_kinds attaching member,?_,?_⟩
  · rw [ensure_starts]
    exact (kept_starts _).markTries ((kept_starts _).markTargets starts marking) trying
  · intro use member
    rw [payload_of_ensure,payloads]
    rcases attachAll_payload attaching use.address with ⟨-,none⟩ | ⟨_,_,_,payload,-,-,-,-,found⟩
    · exact absurd rfl (none use member)
    · rw [found]
      rfl
  · intro a payload found
    rw [payload_of_ensure,payloads] at found
    rcases attachAll_payload attaching a with ⟨same,-⟩ | ⟨before,use,after,held,split,there,beyond,parsed,stored⟩
    · rw [same,nothing] at found
      cases found
    · rw [stored] at found
      cases found
      have sorted := uses_sorted code.units
      rw [split,List.pairwise_append] at sorted
      refine ⟨use.user,⟨⟨use,by rw [split]; simp,rfl,there⟩,?_⟩,parsed⟩
      intro other member same
      rw [split] at member
      rcases List.mem_append.mp member with earlier | here
      · exact Nat.le_of_lt (sorted.2.2 other earlier use List.mem_cons_self)
      · rcases List.mem_cons.mp here with rfl | later
        · exact Nat.le_refl _
        · exact absurd same (beyond other later)

theorem labels_surveyed {c : Container} {file : Option String} {settings : Settings} {info : Option DebugInfo}
    (scanned : scan code = .ok t) (debug : Code.debugInfo c code file settings t = .ok (info,u)) : Surveyed code u :=
  debugInfo_keeps (Q := Surveyed code) (fun _ a spot surveyed => surveyed.ensure (surveyed.laid.distinct.spots a spot)) (scan_surveyed scanned) debug

theorem Surveyed.snap_le (surveyed : Surveyed code t) (start : .instruction a e ∈ (Walk.ofCode code.units).blocks)
    (above : b ≤ a) : t.snap b ≤ a := by
  unfold snap
  rw [surveyed.starts]
  have sorted := starts_sorted code.units
  have member := mem_starts.mpr ⟨e,start⟩
  generalize (Walk.ofCode code.units).starts = starts at sorted member
  induction starts with
  | nil => cases member
  | cons first rest ih =>
    rw [List.find?_cons]
    split
    · rcases List.mem_cons.mp member with rfl | later
      · exact Nat.le_refl _
      · exact Nat.le_of_lt (List.rel_of_pairwise_cons sorted later)
    · rename_i small
      rcases List.mem_cons.mp member with rfl | later
      · simp [above] at small
      · exact ih sorted.of_cons later

theorem Surveyed.no_payload (surveyed : Surveyed code t) (marked : t.Marked a) : t.payload? a = none := by
  have none : Payload.kindOf? (CodeUnits.unit code.units a) = none := by
    rcases surveyed.marks a marked with stop | start
    · rw [stop,surveyed.laid.stop]
      exact stop_kind code.units
    · exact start_kind (surveyed.starts ▸ start)
  cases found : t.payload? a with
  | none => rfl
  | some payload =>
    obtain ⟨user,-,parsed⟩ := surveyed.read a payload found
    rw [parse_kind parsed] at none
    cases none

theorem Surveyed.branchLabel (surveyed : Surveyed code t) (marked : t.Marked a) :
    ∃ label, t.branchLabel a = .ok label ∧ t.labelAt? a = some label := by
  have free := surveyed.no_payload marked
  obtain ⟨entry,found,-⟩ := marked
  simp only [payload?,found,Option.bind_some] at free
  refine ⟨entry.label,?_,by simp [labelAt?,found]⟩
  unfold LabelTable.branchLabel
  rw [found]
  obtain ⟨label,mark,payload⟩ := entry
  obtain rfl := free
  rfl

end LabelTable

end Restack
