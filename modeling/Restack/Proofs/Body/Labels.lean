import Mathlib
import Restack.Code
import Restack.Proofs.NatMap
import Restack.Proofs.Body.Tiling

namespace Restack.LabelTable

-- The table of labels. An address keeps the label it was given, no two addresses
-- have one label, and a mark stays. What the first pass marks is still marked
-- when the body is lowered.

variable {t u : LabelTable} {a b : Nat} {entry : LabelEntry} {payload : Payload} {code : CodeItem}

-- Where the code has something: at the start of an instruction or at its end.
def Spot (t : LabelTable) (a : Nat) : Prop := a = t.stop ∨ a ∈ t.starts

theorem snap_stands (t : LabelTable) (a : Nat) : t.Spot (t.snap a) := by
  unfold snap
  cases found : t.starts.find? (a ≤ ·) with
  | none => exact .inl rfl
  | some b => exact .inr (List.mem_of_find?_eq_some found)

-- Labels are numbered on as addresses ask for them. The counter has as many bits as an address, so it
-- comes back to the first number only when no address is left to ask.
structure Counted (t : LabelTable) : Prop where
  spots : ∀ a, t.Spot a → a < 2 ^ 32
  keys : (t.entries.map Prod.fst).Nodup
  words : ∀ a ∈ t.entries.map Prod.fst, a < 2 ^ 32
  next : t.next = UInt32.ofNat t.entries.length

structure Distinct (t : LabelTable) : Prop extends Counted t where
  fresh : ∀ a entry, t.entry? a = some entry → entry.label.number < t.entries.length
  apart : ∀ a b one two, t.entry? a = some one → t.entry? b = some two → one.label = two.label → a = b

theorem Distinct.address {t : LabelTable} (distinct : t.Distinct) {a b : Nat} {label : Label} (one : t.labelAt? a = some label)
    (two : t.labelAt? b = some label) : a = b := by
  obtain ⟨first,found,named⟩ := Option.map_eq_some_iff.mp one
  obtain ⟨second,told,same⟩ := Option.map_eq_some_iff.mp two
  exact distinct.apart a b first second found told (named.trans same.symm)

theorem length_le_of_nodup {keys : List Nat} {n : Nat} (nodup : keys.Nodup) (below : ∀ k ∈ keys, k < n) : keys.length ≤ n := by
  have inside : keys ⊆ List.range n := fun k member => List.mem_range.mpr (below k member)
  simpa using (nodup.subperm inside).length_le

theorem Counted.room (counted : t.Counted) (word : a < 2 ^ 32) (absent : t.entry? a = none) : t.entries.length < 2 ^ 32 := by
  have new : a ∉ t.entries.map Prod.fst := (NatMap.get?_eq_none a t.entries).mp absent
  have all := length_le_of_nodup (List.nodup_cons.mpr ⟨new,counted.keys⟩) (List.forall_mem_cons.mpr ⟨word,counted.words⟩)
  simpa using all

theorem Counted.next_number (counted : t.Counted) (room : t.entries.length < 2 ^ 32) : t.next.toNat = t.entries.length := by
  rw [counted.next]
  exact UInt32.toNat_ofNat_of_lt room

def Marked (t : LabelTable) (a : Nat) : Prop := ∃ entry, t.entry? a = some entry ∧ entry.jumpTarget = true

theorem entry_ensure (t : LabelTable) (a b : Nat) :
    entry? (t.ensure a) b = if b = a ∧ t.entry? a = none then some ⟨⟨t.next.toNat⟩,false,none⟩ else t.entry? b := by
  unfold ensure obtain
  cases known : t.entry? a with
  | some entry => simp
  | none =>
    simp only [fresh, entry?,and_true]
    rw [NatMap.get?_insert]

theorem entry_ensure_of_some (found : t.entry? b = some entry) : entry? (t.ensure a) b = some entry := by
  rw [entry_ensure]
  split
  · rename_i both
    rw [both.1,both.2] at found
    cases found
  · exact found

theorem ensure_of_some (found : t.entry? a = some entry) : t.ensure a = t := by simp [ensure,obtain,found]

theorem next_ensure (absent : t.entry? a = none) : (t.ensure a).next = t.next + 1 := by simp [ensure,obtain,absent,fresh]

theorem keys_ensure (absent : t.entry? a = none) :
    ((t.ensure a).entries.map Prod.fst).Perm (a :: t.entries.map Prod.fst) := by
  simp only [ensure,obtain,absent]
  exact NatMap.keys_insert absent _

theorem length_ensure (absent : t.entry? a = none) : (t.ensure a).entries.length = t.entries.length + 1 := by
  simpa using (keys_ensure absent).length_eq

@[simp] theorem ensure_stop (t : LabelTable) (a : Nat) : (t.ensure a).stop = t.stop := by
  unfold ensure obtain
  split <;> rfl

@[simp] theorem ensure_starts (t : LabelTable) (a : Nat) : (t.ensure a).starts = t.starts := by
  unfold ensure obtain
  split <;> rfl

theorem ensure_has (t : LabelTable) (a : Nat) : ∃ entry, entry? (t.ensure a) a = some entry := by
  rw [entry_ensure]
  cases known : t.entry? a with
  | none => simp
  | some entry => simp

theorem Counted.ensure (counted : t.Counted) (word : a < 2 ^ 32) : (t.ensure a).Counted := by
  cases known : t.entry? a with
  | some entry => rwa [ensure_of_some known]
  | none =>
    have new : a ∉ t.entries.map Prod.fst := (NatMap.get?_eq_none a t.entries).mp known
    have keys := keys_ensure known
    refine ⟨?_,keys.nodup_iff.mpr (List.nodup_cons.mpr ⟨new,counted.keys⟩),?_,?_⟩
    · intro b spot
      exact counted.spots b (by simpa [Spot] using spot)
    · have words : ∀ b ∈ a :: t.entries.map Prod.fst, b < 2 ^ 32 := List.forall_mem_cons.mpr ⟨word,counted.words⟩
      exact fun b member => words b (keys.mem_iff.mp member)
    · rw [next_ensure known,length_ensure known,counted.next,UInt32.ofNat_add]
      rfl

theorem length_le_ensure (t : LabelTable) (a : Nat) : t.entries.length ≤ (t.ensure a).entries.length := by
  cases known : t.entry? a with
  | some entry => rw [ensure_of_some known]
  | none => exact length_ensure known ▸ Nat.le_succ _

theorem Distinct.ensure (distinct : t.Distinct) (word : a < 2 ^ 32) : (t.ensure a).Distinct := by
  have cases : ∀ b entry, entry? (t.ensure a) b = some entry → t.entry? b = some entry ∨
      (b = a ∧ t.entry? a = none ∧ entry.label.number = t.entries.length) := by
    intro b entry found
    rw [entry_ensure] at found
    split at found
    · rename_i both
      cases found
      exact .inr ⟨both.1,both.2,distinct.next_number (distinct.room word both.2)⟩
    · exact .inl found
  refine ⟨distinct.toCounted.ensure word,?_,?_⟩
  · intro b entry found
    rcases cases b entry found with old | ⟨-,absent,label⟩
    · exact Nat.lt_of_lt_of_le (distinct.fresh b entry old) (length_le_ensure t a)
    · rw [label,length_ensure absent]
      exact Nat.lt_succ_self _
  · intro b c one two first second same
    rcases cases b one first with old | ⟨rfl,absent,label⟩
    · rcases cases c two second with old' | ⟨rfl,absent,label⟩
      · exact distinct.apart b c one two old old' same
      · have small := distinct.fresh b one old
        rw [same,label] at small
        exact absurd small (Nat.lt_irrefl _)
    · rcases cases c two second with old' | ⟨rfl,-,-⟩
      · have small := distinct.fresh c two old'
        rw [← same,label] at small
        exact absurd small (Nat.lt_irrefl _)
      · rfl

def change (t : LabelTable) (a : Nat) (f : LabelEntry → LabelEntry) : LabelTable :=
  { t.ensure a with entries := NatMap.adjust a f (t.ensure a).entries }

theorem entry_change (t : LabelTable) (a b : Nat) (f : LabelEntry → LabelEntry) :
    entry? (t.change a f) b = if b = a then ( entry? (t.ensure a) b).map f else entry? (t.ensure a) b := by
  exact NatMap.get?_adjust a b f (t.ensure a).entries

theorem keys_change (t : LabelTable) (a : Nat) (f : LabelEntry → LabelEntry) :
    (t.change a f).entries.map Prod.fst = (t.ensure a).entries.map Prod.fst := NatMap.keys_adjust a f _

theorem Distinct.change {f : LabelEntry → LabelEntry} (distinct : t.Distinct) (word : a < 2 ^ 32)
    (keeps : ∀ entry, (f entry).label = entry.label) : (t.change a f).Distinct := by
  have base := distinct.ensure word
  have keys := t.keys_change a f
  have length : (t.change a f).entries.length = (t.ensure a).entries.length := by simpa using congrArg List.length keys
  have labels : ∀ b entry, entry? (t.change a f) b = some entry →
      ∃ old, entry? (t.ensure a) b = some old ∧ old.label = entry.label := by
    intro b entry found
    rw [entry_change] at found
    split at found
    · obtain ⟨old,was,rfl⟩ := Option.map_eq_some_iff.mp found
      exact ⟨old,was,(keeps old).symm⟩
    · exact ⟨entry,found,rfl⟩
  refine ⟨⟨base.spots,keys ▸ base.keys,keys ▸ base.words,length ▸ base.next⟩,?_,?_⟩
  · intro b entry found
    obtain ⟨old,was,label⟩ := labels b entry found
    exact length ▸ label ▸ base.fresh b old was
  · intro b c one two first second same
    obtain ⟨old,was,label⟩ := labels b one first
    obtain ⟨old',was',label'⟩ := labels c two second
    exact base.apart b c old old' was was' (label.trans (same.trans label'.symm))

theorem markJump_eq (t : LabelTable) (a : Nat) :
    t.markJump a = t.change a fun entry => { entry with jumpTarget := true } := rfl

theorem setPayload_eq (t : LabelTable) (a : Nat) (payload : Payload) :
    t.setPayload a payload = t.change a fun entry => { entry with payload := some payload } := rfl

theorem Marked.ensure (marked : t.Marked b) (a : Nat) : (t.ensure a).Marked b := by
  obtain ⟨entry,found,mark⟩ := marked
  exact ⟨entry,entry_ensure_of_some found,mark⟩

theorem Marked.change {f : LabelEntry → LabelEntry} (marked : t.Marked b) (a : Nat)
    (keeps : ∀ entry, entry.jumpTarget = true → (f entry).jumpTarget = true) : (t.change a f).Marked b := by
  obtain ⟨entry,found,mark⟩ := marked.ensure a
  by_cases here : b = a
  · exact ⟨f entry,by rw [entry_change,if_pos here,found]; rfl,keeps entry mark⟩
  · exact ⟨entry,by rw [entry_change,if_neg here,found],mark⟩

theorem Marked.markJump (marked : t.Marked b) (a : Nat) : (t.markJump a).Marked b :=
  marked.change a fun _ _ => rfl

theorem markJump_marked (t : LabelTable) (a : Nat) : (t.markJump a).Marked a := by
  obtain ⟨entry,found⟩ := ensure_has t a
  exact ⟨{ entry with jumpTarget := true },by rw [markJump_eq,entry_change,if_pos rfl,found]; rfl,rfl⟩

-- What a body refers to is marked. The data blocks in the table bring in the
-- targets of their switches.
structure Laid (code : CodeItem) (t : LabelTable) : Prop where
  distinct : t.Distinct
  targets : ∀ block ∈ (Walk.ofCode code.units).blocks, ∃ found,
    CodeReferences.ofBlock code.units.size block = .ok found ∧ ∀ a ∈ found.targets, t.Marked a
  payloads : ∀ a entry payload, t.entry? a = some entry → entry.payload = some payload →
    ∀ b ∈ payload.targets, t.Marked b
  handlers : ∀ item ∈ code.tries, ∀ handler, code.handlerFor item = some handler → ∀ a ∈ handler.addresses, t.Marked a
  stop : t.stop = code.units.size
  last : ∃ entry, t.entry? t.stop = some entry

theorem payload_ensure (found : entry? (t.ensure a) b = some entry) (has : entry.payload = some payload) :
    ∃ old, t.entry? b = some old ∧ old.payload = some payload := by
  rw [entry_ensure] at found
  split at found
  · cases found
    cases has
  · exact ⟨entry,found,has⟩

theorem payload_markJump (found : entry? (t.markJump a) b = some entry) (has : entry.payload = some payload) :
    ∃ old, t.entry? b = some old ∧ old.payload = some payload := by
  rw [markJump_eq,entry_change] at found
  split at found
  · obtain ⟨old,was,rfl⟩ := Option.map_eq_some_iff.mp found
    exact payload_ensure was has
  · exact payload_ensure found has

theorem Laid.ensure (laid : Laid code t) (word : a < 2 ^ 32) : Laid code (t.ensure a) where
  distinct := laid.distinct.ensure word
  targets := by
    intro block member
    obtain ⟨found,here,marked⟩ := laid.targets block member
    exact ⟨found,here,fun b target => (marked b target).ensure a⟩
  payloads := by
    intro b entry payload found has c target
    obtain ⟨old,was,had⟩ := payload_ensure found has
    exact (laid.payloads b old payload was had c target).ensure a
  handlers := fun item member handler found b target => (laid.handlers item member handler found b target).ensure a
  stop := (ensure_stop t a).trans laid.stop
  last := by
    obtain ⟨entry,found⟩ := laid.last
    exact ⟨entry,by rw [ensure_stop]; exact entry_ensure_of_some found⟩

-- The steps of the first pass, each with what it keeps.

theorem markTarget_eq (done : t.markTarget a = .ok u) : t.Spot a ∧ u = t.markJump a := by
  unfold markTarget at done
  split at done
  · simp at done
  · rename_i stands
    cases done
    refine ⟨?_,rfl⟩
    by_cases last : a = t.stop
    · exact .inl last
    · exact .inr (by simpa [last,isStart] using stands)

theorem markHandler_eq (done : t.markHandler a = .ok u) : t.Spot a ∧ u = t.markJump a := by
  unfold markHandler at done
  split at done
  · simp at done
  · rename_i stands
    cases done
    exact ⟨.inr (by simpa [isStart] using stands),rfl⟩

structure Kept (Q : LabelTable → Prop) : Prop where
  ensure : ∀ t a, t.Spot a → Q t → Q (t.ensure a)
  markJump : ∀ t a, t.Spot a → Q t → Q (t.markJump a)

theorem kept_marked (b : Nat) : Kept fun t => t.Marked b :=
  ⟨fun _ a _ marked => marked.ensure a,fun _ a _ marked => marked.markJump a⟩

theorem kept_distinct : Kept Distinct :=
  ⟨fun _ a spot distinct => distinct.ensure (distinct.spots a spot),
    fun _ a spot distinct => distinct.change (distinct.spots a spot) fun _ => rfl⟩

theorem kept_payloads (targets : List Nat) : Kept fun t => ∀ a entry payload, t.entry? a = some entry →
    entry.payload = some payload → ∀ b ∈ payload.targets, b ∈ targets := by
  constructor
  · intro t c _ all a entry payload found has
    obtain ⟨old,was,had⟩ := payload_ensure found has
    exact all a old payload was had
  · intro t c _ all a entry payload found has
    obtain ⟨old,was,had⟩ := payload_markJump found has
    exact all a old payload was had

theorem kept_stop (stop : Nat) : Kept fun t => t.stop = stop :=
  ⟨fun t a _ same => (ensure_stop t a).trans same,fun t a _ same => (ensure_stop t a).trans same⟩

theorem Kept.markTargets {Q : LabelTable → Prop} {addresses : List Nat} (kept : Kept Q) (start : Q t)
    (done : addresses.foldlM markTarget t = .ok u) : Q u :=
  foldlM_keeps (P := Q) (fun t a _ _ before step => (markTarget_eq step).2 ▸ kept.markJump t a (markTarget_eq step).1 before) start done

theorem Kept.markHandlers {Q : LabelTable → Prop} {addresses : List Nat} (kept : Kept Q) (start : Q t)
    (done : addresses.foldlM markHandler t = .ok u) : Q u :=
  foldlM_keeps (P := Q) (fun t a _ _ before step => (markHandler_eq step).2 ▸ kept.markJump t a (markHandler_eq step).1 before) start done

theorem Kept.markTry {Q : LabelTable → Prop} {item : TryItem} (kept : Kept Q) (start : Q t)
    (done : t.markTry code item = .ok u) : Q u := by
  simp only [LabelTable.markTry,guard_eq_ok,bind_eq_ok] at done
  obtain ⟨starts,stop,-,-,done⟩ := done
  have opened := kept.ensure t item.start.toNat (.inr (by simpa [isStart] using starts)) start
  have ends := kept.ensure _ ((t.ensure item.start.toNat).snap stop) (snap_stands _ stop) opened
  split at done
  · cases done
    exact ends
  · exact kept.markHandlers ends done

theorem Kept.markTries {Q : LabelTable → Prop} {tries : List TryItem} (kept : Kept Q) (start : Q t)
    (done : tries.foldlM (LabelTable.markTry code) t = .ok u) : Q u :=
  foldlM_keeps (P := Q) (fun _ _ _ _ before step => kept.markTry before step) start done

theorem markTargets_marked {addresses : List Nat} (done : addresses.foldlM markTarget t = .ok u) (member : a ∈ addresses) :
    u.Marked a := by
  obtain ⟨before,after,rfl⟩ := List.append_of_mem member
  obtain ⟨m,-,rest⟩ := foldlM_append_ok.mp done
  rw [List.foldlM_cons,bind_eq_ok] at rest
  obtain ⟨n,step,rest⟩ := rest
  exact (kept_marked a).markTargets ((markTarget_eq step).2 ▸ markJump_marked m a) rest

theorem markHandlers_marked {addresses : List Nat} (done : addresses.foldlM markHandler t = .ok u)
    (member : a ∈ addresses) : u.Marked a := by
  obtain ⟨before,after,rfl⟩ := List.append_of_mem member
  obtain ⟨m,-,rest⟩ := foldlM_append_ok.mp done
  rw [List.foldlM_cons,bind_eq_ok] at rest
  obtain ⟨n,step,rest⟩ := rest
  exact (kept_marked a).markHandlers ((markHandler_eq step).2 ▸ markJump_marked m a) rest

theorem markTries_marked {tries : List TryItem} {item : TryItem} {handler : CatchHandler}
    (done : tries.foldlM (markTry code) t = .ok u) (member : item ∈ tries) (found : code.handlerFor item = some handler)
    (target : a ∈ handler.addresses) : u.Marked a := by
  obtain ⟨before,after,rfl⟩ := List.append_of_mem member
  obtain ⟨m,-,rest⟩ := foldlM_append_ok.mp done
  rw [List.foldlM_cons,bind_eq_ok] at rest
  obtain ⟨n,step,rest⟩ := rest
  refine (kept_marked a).markTries ?_ rest
  simp only [markTry,guard_eq_ok,bind_eq_ok,found] at step
  obtain ⟨-,stop,-,-,step⟩ := step
  exact markHandlers_marked step target

theorem attach_spec {use : PayloadUse} {here : List Nat} (done : attach code.units t use = .ok (u,here)) :
    ∃ payload, u = t.setPayload use.address payload ∧ here = payload.targets := by
  simp only [attach,bind_eq_ok,guard_eq_ok,pure_eq_ok,Prod.mk.injEq] at done
  obtain ⟨payload,-,-,rfl,rfl⟩ := done
  exact ⟨payload,rfl,rfl⟩

theorem payload_setPayload {other : Payload} (found : entry? (t.setPayload a payload) b = some entry)
    (has : entry.payload = some other) :
    other = payload ∨ ∃ old, t.entry? b = some old ∧ old.payload = some other := by
  rw [setPayload_eq,entry_change] at found
  split at found
  · obtain ⟨old,was,rfl⟩ := Option.map_eq_some_iff.mp found
    cases has
    exact .inl rfl
  · exact .inr (payload_ensure found has)

theorem attachAll_spec {uses : List PayloadUse} {known cases : List Nat} (distinct : t.Distinct)
    (words : ∀ use ∈ uses, use.address < 2 ^ 32)
    (all : ∀ a entry payload, t.entry? a = some entry → entry.payload = some payload → ∀ b ∈ payload.targets, b ∈ known)
    (done : attachAll code.units t uses = .ok (u,cases)) :
    u.Distinct ∧ u.stop = t.stop ∧ ∀ a entry payload, u.entry? a = some entry → entry.payload = some payload →
      ∀ b ∈ payload.targets, b ∈ known ++ cases := by
  induction uses generalizing t known cases with
  | nil =>
    cases done
    refine ⟨distinct,rfl,?_⟩
    intro a entry payload found has b target
    exact List.mem_append_left _ (all a entry payload found has b target)
  | cons use rest ih =>
    simp only [attachAll,bind_eq_ok,pure_eq_ok,Prod.mk.injEq] at done
    obtain ⟨⟨m,here⟩,attached,⟨n,further⟩,done,rfl,rfl⟩ := done
    obtain ⟨payload,rfl,rfl⟩ := attach_spec attached
    obtain ⟨word,words⟩ := List.forall_mem_cons.mp words
    have changed : (t.setPayload use.address payload).Distinct := distinct.change word fun _ => rfl
    have more : ∀ a entry other, entry? (t.setPayload use.address payload) a = some entry → entry.payload = some other →
        ∀ b ∈ other.targets, b ∈ known ++ payload.targets := by
      intro a entry other got has b target
      rcases payload_setPayload got has with rfl | ⟨old,was,had⟩
      · exact List.mem_append_right _ target
      · exact List.mem_append_left _ (all a old other was had b target)
    obtain ⟨apart,stop,found⟩ := ih changed words more done
    refine ⟨apart,stop.trans (ensure_stop t use.address),?_⟩
    simpa only [List.append_assoc] using found

theorem empty_distinct (code : CodeItem) : (empty (Walk.ofCode code.units) code.units.size).Distinct where
  spots := by
    rintro a (rfl | start)
    · exact code.counted
    · exact Nat.lt_trans (start_inside start) code.counted
  keys := List.nodup_nil
  words := fun _ member => nomatch member
  next := rfl
  fresh := fun _ _ found => nomatch found
  apart := fun _ _ _ _ found => nomatch found

theorem payload_inside {size : Nat} {block : Block} {found : CodeReferences} {use : PayloadUse}
    (here : CodeReferences.ofBlock size block = .ok found) (member : use ∈ found.payloads) : use.address < size := by
  cases block with
  | data address length =>
    cases here
    cases member
  | instruction pc e =>
    cases format : e.opcode.format <;>
      simp only [CodeReferences.ofBlock,format,bind_eq_ok,pure_eq_ok,guard_eq_ok,Except.ok.injEq] at here
    case f31t =>
      obtain ⟨address,-,inside,rfl⟩ := here
      obtain rfl := List.mem_singleton.mp member
      exact Nat.lt_of_not_le inside
    case f10t | f20t | f30t | f21t | f22t =>
      obtain ⟨address,-,rfl⟩ := here
      cases member
    all_goals
      subst here
      cases member

theorem ofWalk_payloads {walk : Walk} {size : Nat} {references : CodeReferences}
    (done : CodeReferences.ofWalk size walk = .ok references) : ∀ use ∈ references.payloads, use.address < size := by
  simp only [CodeReferences.ofWalk,bind_eq_ok,guard_eq_ok,pure_eq_ok] at done
  obtain ⟨all,mapped,-,-,-,rfl⟩ := done
  intro use member
  obtain ⟨found,present,among⟩ := List.mem_flatMap.mp member
  obtain ⟨block,-,here⟩ := mem_mapM mapped present
  exact payload_inside here among

theorem ofWalk_targets {walk : Walk} {size : Nat} {references : CodeReferences} {block : Block}
    (done : CodeReferences.ofWalk size walk = .ok references) (member : block ∈ walk.blocks) :
    ∃ found, CodeReferences.ofBlock size block = .ok found ∧ ∀ a ∈ found.targets, a ∈ references.targets := by
  simp only [CodeReferences.ofWalk,bind_eq_ok,guard_eq_ok,pure_eq_ok] at done
  obtain ⟨all,mapped,-,-,-,rfl⟩ := done
  obtain ⟨found,present,here⟩ := mapM_mem mapped member
  exact ⟨found,here,fun a target => List.mem_flatMap.mpr ⟨found,present,target⟩⟩

theorem scan_laid (done : scan code = .ok t) : Laid code t := by
  simp only [scan,bind_eq_ok,pure_eq_ok] at done
  obtain ⟨references,referred,⟨attached,cases⟩,attaching,marked,marking,tried,trying,rfl⟩ := done
  have start : ((empty (Walk.ofCode code.units) code.units.size).ensure 0).Distinct := (empty_distinct code).ensure (by decide)
  have words : ∀ use ∈ references.payloads, use.address < 2 ^ 32 := fun use member =>
    Nat.lt_trans (ofWalk_payloads referred use member) code.counted
  have nothing : ∀ a entry payload, entry? ((empty (Walk.ofCode code.units) code.units.size).ensure 0) a = some entry →
      entry.payload = some payload → ∀ b ∈ payload.targets, b ∈ [] := by
    intro a entry payload found has
    obtain ⟨old,was,-⟩ := payload_ensure found has
    cases was
  obtain ⟨distinct,stop,payloads⟩ := attachAll_spec start words nothing attaching
  have targets : ∀ a ∈ references.targets ++ cases, tried.Marked a := fun a member =>
    (kept_marked a).markTries (markTargets_marked marking member) trying
  have last : tried.stop = code.units.size :=
    (kept_stop _).markTries ((kept_stop _).markTargets (stop.trans (ensure_stop _ 0)) marking) trying
  have apart := kept_distinct.markTries (kept_distinct.markTargets distinct marking) trying
  refine ⟨apart.ensure (apart.spots _ (.inl rfl)),?_,?_,?_,?_,?_⟩
  · intro block member
    obtain ⟨found,here,among⟩ := ofWalk_targets referred member
    exact ⟨found,here,fun a target => (targets a (List.mem_append_left _ (among a target))).ensure _⟩
  · intro a entry payload found has b target
    obtain ⟨old,was,had⟩ := payload_ensure found has
    refine (targets b (List.mem_append_right _ ?_)).ensure _
    have within := (kept_payloads ([] ++ cases)).markTries ((kept_payloads _).markTargets payloads marking) trying
    exact within a old payload was had b target
  · intro item member handler found a target
    exact (markTries_marked trying member found target).ensure _
  · exact (ensure_stop _ _).trans last
  · rw [ensure_stop]
    exact ensure_has _ _

end Restack.LabelTable

namespace Restack.DebugState

-- Debug information only asks for labels, so it keeps what `ensure` keeps.

variable {Q : LabelTable → Prop} {s t : DebugState} {op : DebugOp} {c : Container}

theorem closeHeld_labels (s : DebugState) (register : Nat) (stop : Label) :
    (s.closeHeld register stop).labels = s.labels := by
  unfold closeHeld
  split
  · rfl
  · unfold close
    split <;> rfl

theorem closeAll_labels (s : DebugState) : s.closeAll.labels = s.labels := by
  unfold closeAll
  generalize s.labels.stopLabel = stop
  induction s.held generalizing s with
  | nil => rfl
  | cons pair rest ih =>
    rw [List.foldl_cons]
    exact (ih _).trans (closeHeld_labels s pair.1 stop)

theorem placed_stands (labels : LabelTable) (a : Nat) : labels.Spot (placed labels a) := by
  unfold placed
  split
  · exact .inl rfl
  · split
    · exact labels.snap_stands a
    · rename_i stands
      by_cases last : a = labels.stop
      · exact .inl last
      · exact .inr (by simpa [last,LabelTable.isStart] using stands)

theorem step_labels (keeps : ∀ t a, t.Spot a → Q t → Q (t.ensure a)) (start : Q s.labels) (done : s.step op = .ok t) : Q t.labels := by
  have placed : Q s.here.2.labels := keeps _ _ (placed_stands _ _) start
  cases op with
  | endSequence =>
    cases done
    rwa [closeAll_labels]
  | advanceAddress delta =>
    simp only [step] at done
    split at done
    · simp at done
    · cases done
      exact start
  | advanceLine delta =>
    cases done
    exact start
  | startLocal register var =>
    cases done
    simpa [startLocal,hold,closeHeld_labels] using placed
  | endLocal register =>
    simp only [step,endLocal] at done
    split at done
    · cases done
      rwa [closeHeld_labels]
    · simp at done
  | restartLocal register =>
    cases done
    unfold restartLocal
    split
    · exact start
    · simpa [hold,closeHeld_labels] using placed
  | mark =>
    cases done
    exact start
  | setFile file =>
    cases done
    exact start
  | special opcode =>
    simp only [step,special,guard_eq_ok,pure_eq_ok] at done
    obtain ⟨-,-,rfl⟩ := done
    exact keeps _ _ (placed_stands _ _) start

theorem run_keeps {I : DebugState → Prop} {fuel start stop : Nat} {bytes : Bytes}
    (keeps : ∀ s op t, I s → s.step op = .ok t → I t) (before : I s) (done : run c fuel s bytes start = .ok (t,stop)) : I t := by
  induction fuel generalizing s start with
  | zero => simp [run,reader_lift_ok] at done
  | succ fuel ih =>
    simp only [run,reader_bind_ok] at done
    obtain ⟨offset,_,-,available,_,-,done⟩ := done
    split at done
    · simp [reader_lift_ok] at done
    · simp only [reader_bind_ok,reader_lift_ok] at done
      obtain ⟨op,_,-,next,_,⟨stepped,-⟩,done⟩ := done
      have after := keeps s op next before stepped
      split at done
      · rw [reader_pure_ok] at done
        exact done.1 ▸ after
      · exact ih after done

theorem run_labels {fuel start stop : Nat} {bytes : Bytes} (keeps : ∀ t a, t.Spot a → Q t → Q (t.ensure a)) (before : Q s.labels)
    (done : run c fuel s bytes start = .ok (t,stop)) : Q t.labels :=
  run_keeps (I := fun s => Q s.labels) (fun _ _ _ before stepped => step_labels keeps before stepped) before done

end Restack.DebugState

namespace Restack

theorem DebugInfo.read_parts {c : Container} {offset : UInt32} {file : Option String} {labels final : LabelTable} {info : DebugInfo}
    (done : DebugInfo.read c offset file labels = .ok (info,final)) :
    ∃ line one count two names three s stop, Reader.uleb128 c.bytes offset.toNat = .ok (line,one) ∧
      Reader.uleb128 c.bytes one = .ok (count,two) ∧
      Reader.times count.toNat (DebugOp.optionalName c.string) c.bytes two = .ok (names,three) ∧
      DebugState.run c (c.bytes.size - three) { line := line.toNat, file, labels } c.bytes three = .ok (s,stop) ∧
      info = ⟨names,s.locals,s.lines⟩ ∧ final = s.labels := by
  simp only [DebugInfo.read,within_eq_ok] at done
  split at done
  · rename_i result ran
    cases done
    unfold Reader.valueAt at ran
    split at ran
    · rename_i value stop program
      cases ran
      simp only [DebugInfo.readProgram,reader_bind_ok,reader_pure_ok] at program
      obtain ⟨line,one,first,count,two,second,names,three,third,_,_,⟨⟩,_,_,⟨⟩,s,place,ran,same,-⟩ := program
      cases same
      exact ⟨line,one,count,two,names,three,s,place,first,second,third,ran,rfl,rfl⟩
    · cases ran
  · cases done

end Restack

namespace Restack.LabelTable

theorem debugInfo_cases {c : Container} {item : CodeItem} {file : Option String} {settings : Settings}
    {labels final : LabelTable} {info : Option DebugInfo} (done : Code.debugInfo c item file settings labels = .ok (info,final)) :
    (info = none ∧ final = labels) ∨
    ∃ line fuel offset stop names s,
      DebugState.run c fuel { line, file, labels } c.bytes offset = .ok (s,stop) ∧
      info = some ⟨names,s.locals,s.lines⟩ ∧ final = s.labels := by
  unfold Code.debugInfo at done
  split at done
  · simp only [bind_eq_ok,pure_eq_ok,Prod.mk.injEq] at done
    obtain ⟨⟨found,known⟩,read,rfl,rfl⟩ := done
    obtain ⟨_,_,_,_,names,_,s,_,-,-,-,ran,rfl,same⟩ := DebugInfo.read_parts read
    exact .inr ⟨_,_,_,_,names,s,ran,rfl,same⟩
  · cases done
    exact .inl ⟨rfl,rfl⟩

theorem debugInfo_keeps {Q : LabelTable → Prop} {c : Container} {item : CodeItem} {file : Option String}
    {settings : Settings} {labels final : LabelTable} {info : Option DebugInfo} (keeps : ∀ t a, t.Spot a → Q t → Q (t.ensure a))
    (start : Q labels) (done : Code.debugInfo c item file settings labels = .ok (info,final)) : Q final := by
  rcases debugInfo_cases done with ⟨-,rfl⟩ | ⟨_,_,_,_,_,s,ran,-,rfl⟩
  · exact start
  · exact DebugState.run_labels keeps start ran

end Restack.LabelTable
