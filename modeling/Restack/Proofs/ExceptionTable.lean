import Mathlib
import Restack.Proofs.LabelPlacement

namespace Restack

open Lowering

-- The exception table of a body: what each entry comes from, which code is within its labels, and
-- what its handler finds on the stack.

-- A way out of a range: the index of the type that is caught, none for all, and where it goes.
structure CatchClause where
  range : TryItem
  type : Option UInt32
  address : Nat

def CatchHandler.clauses (h : CatchHandler) (range : TryItem) : List CatchClause :=
  h.typed.map (fun entry => ⟨range,some entry.type,entry.address.toNat⟩) ++
    h.catchAll.toList.map fun address => ⟨range,none,address.toNat⟩

def CodeItem.clausesOf (code : CodeItem) (tries : List TryItem) : List CatchClause :=
  tries.flatMap fun range => (code.handlerFor range).toList.flatMap fun handler => handler.clauses range

-- An entry with the type of the exceptions that it catches.
structure CatchEntry where
  block : TryBlock
  type : Descriptor

structure CatchEntry.Of (c : Container) (labels : LabelTable) (clause : CatchClause) (entry : CatchEntry) : Prop where
  start : labels.labelAt? clause.range.start.toNat = some entry.block.start
  stop : labels.labelAt? (labels.snap clause.range.past) = some entry.block.stop
  handler : labels.labelAt? clause.address = some entry.block.handler
  typed : ∀ index, clause.type = some index → ∃ text, c.type index = .ok text ∧ Descriptor.ofText text = .ok entry.type ∧
    entry.block.catchType = some entry.type.internalName
  any : clause.type = none → entry.type = throwable ∧ entry.block.catchType = none

-- What all entries of a handler agree on, whatever their order.
def CaughtBy (entries : List CatchEntry) (label : Label) (type : Descriptor) : Prop :=
  (∀ entry ∈ entries, entry.block.handler = label → entry.type = type) ∨
  type = throwable ∧ ∃ one ∈ entries, ∃ two ∈ entries,
    one.block.handler = label ∧ two.block.handler = label ∧ one.type ≠ two.type

-- The code of an instruction is between the labels of the entry exactly if the range covers it.
def Encloses (p : Plan) (start : State) (items : List BodyItem) (code : Code) (range : TryItem) (block : TryBlock) : Prop :=
  ∃ first past, code.PlacedAt block.start first ∧ code.PlacedAt block.stop past ∧
    ∀ k n address opcode i s t, Spans p start items k n (.instruction address opcode i) s t →
      (first < n ∧ n < past ↔ range.Covers address)

variable {c : Container} {shape : MethodShape} {item : CodeItem} {file : Option String} {settings : Settings}
  {labels : LabelTable} {p : Plan} {start final : State} {code : Code} {range : TryItem} {clauses : List CatchClause}
  {entries : List CatchEntry} {label : Label}

namespace Lowering.Handlers

variable {h k : Handlers} {targets : List Target} {t : Target}
  {first stop : Label} {types : List Descriptor} {type : Descriptor} {tries : List TryItem}

def common : List Descriptor → Option Descriptor
  | [] => none
  | type :: rest => some (if ∀ other ∈ rest, other = type then type else throwable)

theorem common_snoc (types : List Descriptor) (type : Descriptor) :
    common (types ++ [type]) = some (match common types with
      | none => type
      | some known => if known = type then known else throwable) := by
  cases types with
  | nil => simp [common]
  | cons first rest =>
    by_cases same : ∀ other ∈ rest, other = first
    · have known : common (first :: rest) = some first := by rw [common,if_pos same]
      rw [known,List.cons_append,common]
      by_cases alike : type = first
      · subst alike
        have all : ∀ other ∈ rest ++ [type], other = type := by
          intro other member
          rcases List.mem_append.mp member with old | new
          · exact same other old
          · exact List.mem_singleton.mp new
        rw [if_pos all]
        simp
      · rw [if_neg fun all => alike (all type (by simp))]
        simp [Ne.symm alike]
    · have known : common (first :: rest) = some throwable := by rw [common,if_neg same]
      rw [known,List.cons_append,common,if_neg fun all => same fun other member => all other (List.mem_append_left _ member)]
      simp

theorem common_caught (known : common types = some type) :
    (∀ other ∈ types, other = type) ∨ type = throwable ∧ ∃ one ∈ types, ∃ two ∈ types, one ≠ two := by
  cases types with
  | nil => cases known
  | cons first rest =>
    simp only [common,Option.some.injEq] at known
    split at known
    · rename_i same
      subst known
      exact .inl (by simpa using same)
    · rename_i differ
      push Not at differ
      obtain ⟨other,member,apart⟩ := differ
      exact .inr ⟨known.symm,other,List.mem_cons_of_mem _ member,first,List.mem_cons_self,apart⟩

theorem noteCaught_get (caught : NatMap Descriptor) (label : Label) (type : Descriptor) (n : Nat) :
    (noteCaught caught label type).get? n =
      if n = label.number then some (match caught.get? n with
        | none => type
        | some known => if known = type then known else throwable)
      else caught.get? n := by
  by_cases here : n = label.number
  · subst here
    unfold noteCaught
    cases known : caught.get? label.number with
    | none => simp [NatMap.get?_insert]
    | some other =>
      by_cases same : other = type
      · simp [same,known]
      · simp [same,NatMap.get?_insert]
  · unfold noteCaught
    split
    · simp [NatMap.get?_insert,here]
    · split
      · simp
      · simp [NatMap.get?_insert,here]

def typesAt (label : Label) (entries : List CatchEntry) : List Descriptor :=
  (entries.filter (·.block.handler = label)).map CatchEntry.type

def Notes (caught : NatMap Descriptor) (entries : List CatchEntry) : Prop :=
  ∀ label : Label, caught.get? label.number = common (typesAt label entries)

def entryOf (first stop : Label) (t : Target) : CatchEntry where
  block := { start := first, stop, handler := t.handler, catchType := t.descriptor.map fun _ => t.type.internalName }
  type := t.type

theorem Notes.note {caught : NatMap Descriptor} (notes : Notes caught entries) (first stop : Label) (t : Target) :
    Notes (noteCaught caught t.handler t.type) (entries ++ [entryOf first stop t]) := by
  intro label
  rw [noteCaught_get,notes label]
  by_cases here : t.handler = label
  · simp [typesAt,entryOf,here,common_snoc]
  · have other : label.number ≠ t.handler.number := by
      intro same
      cases label
      cases same
      exact here rfl
    simp [typesAt,entryOf,here,other]

theorem Notes.noteAll {caught : NatMap Descriptor} (notes : Notes caught entries) (first stop : Label) (targets : List Target) :
    Notes (targets.foldl (fun caught t => noteCaught caught t.handler t.type) caught)
      (entries ++ targets.map (entryOf first stop)) := by
  induction targets generalizing caught entries with
  | nil => simpa using notes
  | cons t rest ih => simpa using ih (notes.note first stop t)

structure Reads (c : Container) (range : TryItem) (clause : CatchClause) (pair : Option String × Nat) : Prop where
  range : clause.range = range
  address : pair.2 = clause.address
  typed : ∀ index, clause.type = some index → ∃ text, c.type index = .ok text ∧ pair.1 = some text
  any : clause.type = none → pair.1 = none

theorem pairs_reads {handler : CatchHandler} {all : List (Option String × Nat)} (done : pairs c handler = .ok all) (range : TryItem) :
    List.Forall₂ (Reads c range) (handler.clauses range) all := by
  simp only [pairs,bind_eq_ok,pure_eq_ok] at done
  obtain ⟨typed,mapped,rfl⟩ := done
  apply List.rel_append
  · rw [List.forall₂_map_left_iff]
    refine (mapM_eq_ok.mp mapped).imp ?_
    intro entry pair here
    simp only [bind_eq_ok,pure_eq_ok] at here
    obtain ⟨text,read,rfl⟩ := here
    exact ⟨rfl,rfl,by rintro _ ⟨⟩; exact ⟨text,read,rfl⟩,by simp⟩
  · rw [List.forall₂_map_left_iff,List.forall₂_map_right_iff,List.forall₂_same]
    exact fun address _ => ⟨rfl,rfl,by simp,fun _ => rfl⟩

theorem Reads.entry {clause : CatchClause} {pair : Option String × Nat} (reads : Reads c range clause pair)
    (opens : labels.labelAt? range.start.toNat = some first) (closes : labels.labelAt? (labels.snap range.past) = some stop)
    (done : target labels pair = .ok t) : (entryOf first stop t).Of c labels clause := by
  obtain ⟨rfl,address,typed,any⟩ := reads
  have placed := labelAt_some (target_label done)
  rw [address] at placed
  simp only [target,bind_eq_ok] at done
  obtain ⟨label,-,done⟩ := done
  refine ⟨opens,closes,placed,?_,?_⟩
  · intro index named
    obtain ⟨text,read,same⟩ := typed index named
    simp only [same,bind_eq_ok,pure_eq_ok] at done
    obtain ⟨type,parsed,rfl⟩ := done
    exact ⟨text,read,parsed,rfl⟩
  · intro none
    simp only [any none,pure_eq_ok] at done
    subst done
    exact ⟨rfl,rfl⟩

structure Lists (c : Container) (labels : LabelTable) (h : Handlers) (clauses : List CatchClause)
    (entries : List CatchEntry) : Prop where
  blocks : h.blocks = entries.map CatchEntry.block
  each : List.Forall₂ (CatchEntry.Of c labels) clauses entries
  notes : Notes h.caught entries

theorem Lists.add (lists : h.Lists c labels clauses entries) (done : add c item labels h range = .ok k) :
    (item.handlerFor range).isSome ∧
      ∃ more, k.Lists c labels (clauses ++ item.clausesOf [range]) (entries ++ more) := by
  unfold Handlers.add at done
  split at done
  · simp at done
  · rename_i handler mine
    simp only [bind_eq_ok,pure_eq_ok] at done
    obtain ⟨past,stops,first,opens,stop,closes,all,listed,targets,mapped,rfl⟩ := done
    obtain rfl := TryItem.stop_past stops
    refine ⟨by simp [mine],targets.map (entryOf first stop),?_,?_,lists.notes.noteAll first stop targets⟩
    · simp [lists.blocks,entryOf]
    · refine List.rel_append lists.each ?_
      simp only [CodeItem.clausesOf,List.flatMap_cons,List.flatMap_nil,List.append_nil,mine,Option.toList_some]
      -- Looking up and labelling go over the same clauses.
      have read := pairs_reads listed range
      generalize handler.clauses range = clauses at read
      clear listed
      induction read generalizing targets with
      | nil =>
        cases mapped
        exact .nil
      | cons here _ ih =>
        simp only [List.mapM_cons,bind_eq_ok,pure_eq_ok] at mapped
        obtain ⟨t,done,rest,others,rfl⟩ := mapped
        exact .cons (here.entry (labelAt_some opens) (labelAt_some closes) done) (ih rest others)

theorem Lists.addAll (lists : h.Lists c labels clauses entries) (done : tries.foldlM (Handlers.add c item labels) h = .ok k) :
    (∀ range ∈ tries, (item.handlerFor range).isSome) ∧
      ∃ more, k.Lists c labels (clauses ++ item.clausesOf tries) (entries ++ more) := by
  induction tries generalizing h clauses entries with
  | nil =>
    cases done
    exact ⟨by simp,[],by simpa [CodeItem.clausesOf] using lists⟩
  | cons range rest ih =>
    rw [List.foldlM_cons,bind_eq_ok] at done
    obtain ⟨m,step,done⟩ := done
    obtain ⟨handled,more,next⟩ := lists.add step
    obtain ⟨others,further,last⟩ := ih next done
    refine ⟨by simpa using ⟨handled,others⟩,more ++ further,?_⟩
    simpa [CodeItem.clausesOf] using last

theorem ofCode_lists (done : ofCode c item labels = .ok h) :
    (∀ range ∈ item.tries, (item.handlerFor range).isSome) ∧
      ∃ entries, h.Lists c labels (item.clausesOf item.tries) entries := by
  have none : Lists c labels {} [] [] := ⟨rfl,.nil,fun _ => rfl⟩
  obtain ⟨handled,entries,lists⟩ := none.addAll done
  exact ⟨handled,entries,lists⟩

theorem Lists.caught {entry : CatchEntry} (lists : h.Lists c labels clauses entries) (member : entry ∈ entries) :
    ∃ type, h.caught.get? entry.block.handler.number = some type ∧ CaughtBy entries entry.block.handler type := by
  have here : ∀ other, other ∈ typesAt entry.block.handler entries ↔
      ∃ e ∈ entries, e.block.handler = entry.block.handler ∧ e.type = other := by
    intro other
    simp [typesAt,and_assoc]
  cases known : common (typesAt entry.block.handler entries) with
  | none =>
    have some := (here entry.type).mpr ⟨entry,member,rfl,rfl⟩
    cases listed : typesAt entry.block.handler entries with
    | nil =>
      rw [listed] at some
      cases some
    | cons first rest =>
      rw [listed] at known
      cases known
  | some type =>
    refine ⟨type,(lists.notes _).trans known,?_⟩
    rcases common_caught known with same | ⟨any,one,first,two,second,apart⟩
    · exact .inl fun e listed handles => same _ ((here _).mpr ⟨e,listed,handles,rfl⟩)
    · obtain ⟨e,listed,handles,rfl⟩ := (here one).mp first
      obtain ⟨f,there,again,rfl⟩ := (here two).mp second
      exact .inr ⟨any,e,listed,f,there,handles,again,apart⟩

end Lowering.Handlers

theorem CodeItem.clausesOf_range {clause : CatchClause} {tries : List TryItem} (member : clause ∈ item.clausesOf tries) :
    clause.range ∈ tries := by
  obtain ⟨range,present,member⟩ := List.mem_flatMap.mp member
  obtain ⟨handler,-,member⟩ := List.mem_flatMap.mp member
  rcases List.mem_append.mp member with typed | any
  · obtain ⟨_,-,rfl⟩ := List.mem_map.mp typed
    exact present
  · obtain ⟨_,-,rfl⟩ := List.mem_map.mp any
    exact present

theorem LabelTable.le_snap {a : Nat} (inside : a ≤ labels.stop) : a ≤ labels.snap a := by
  unfold LabelTable.snap
  cases found : labels.starts.find? (a ≤ ·) with
  | none => exact inside
  | some b => simpa using List.find?_some found

namespace Translates

variable (way : Translates c shape item labels p start final)
include way

theorem label_side {a address j k m n : Nat} {opcode : Opcode} {i : Instruction} {s t u v : State}
    (placed : Spans p start (item.body c labels) j m (.label a label) u v) (last : m + 1 = v.draft.events.size)
    (spans : Spans p start (item.body c labels) k n (.instruction address opcode i) s t) :
    (a ≤ address → m < n) ∧ (address < a → n < m) := by
  constructor
  · intro below
    have earlier : j < k := by
      rcases Nat.lt_trichotomy j k with less | rfl | less
      · exact less
      · cases placed.here.symm.trans spans.here
      · have ordered : 2 * address + 1 < 2 * a := way.place_order spans.here placed.here less
        omega
    have grown := way.stateAt_size placed.after spans.before earlier
    have low := spans.low
    omega
  · intro above
    have grown := way.stateAt_size spans.after placed.before (way.above_first spans.here placed.here above)
    have high := spans.high
    have low := placed.low
    omega

theorem encloses (surveyed : labels.Surveyed item) (events : code.events = final.draft.events.toList) {block : TryBlock}
    (starts : range.start.toNat ∈ (Walk.ofCode item.units).starts) (inside : range.past ≤ item.units.size)
    (opens : labels.labelAt? range.start.toNat = some block.start)
    (closes : labels.labelAt? (labels.snap range.past) = some block.stop) :
    Encloses p start (item.body c labels) code range block := by
  have hands := ofCode_handsOn surveyed c
  obtain ⟨j,here⟩ := List.getElem?_of_mem (hands.label_item way.whole (.inr (surveyed.starts ▸ starts)) opens)
  obtain ⟨l,there⟩ := List.getElem?_of_mem (hands.label_item way.whole (labels.snap_stands _) closes)
  obtain ⟨first,u,v,low,lowest,placed⟩ := way.placed_at events here
  obtain ⟨past,w,x,high,highest,ended⟩ := way.placed_at events there
  refine ⟨first,past,placed,ended,?_⟩
  intro k n address opcode i s t spans
  obtain ⟨after,before⟩ := way.label_side low lowest spans
  obtain ⟨beyond,within⟩ := way.label_side high highest spans
  -- No instruction starts between the end of the range and the address it moves on to.
  have snapped : address < labels.snap range.past ↔ address < range.past := by
    constructor
    · intro less
      by_contra above
      obtain ⟨e,stands,-⟩ := way.decoded (List.mem_of_getElem? spans.here)
      exact absurd (surveyed.snap_le stands (Nat.le_of_not_lt above)) (Nat.not_le_of_lt less)
    · intro less
      exact Nat.lt_of_lt_of_le less (LabelTable.le_snap (surveyed.laid.stop ▸ inside))
  unfold TryItem.Covers
  rw [← snapped]
  constructor
  · rintro ⟨above,below⟩
    constructor
    · by_contra less
      have := before (Nat.lt_of_not_le less)
      omega
    · by_contra less
      have := beyond (Nat.le_of_not_lt less)
      omega
  · rintro ⟨above,below⟩
    exact ⟨after above,within below⟩

theorem handler_pending {type : Descriptor} (surveyed : labels.Surveyed item)
    (caught : p.handlers.caught.get? label.number = some type) :
    ∃ k address t, (item.body c labels)[k]? = some (.label address label) ∧
      stateAt p start (item.body c labels) (k + 1) = .ok t ∧ t.pending = some type := by
  obtain ⟨targeted,-⟩ := way.registered.caught _ type caught
  obtain ⟨address,stands,named⟩ := surveyed.targeted_anchors targeted
  obtain ⟨k,here⟩ := List.getElem?_of_mem ((ofCode_handsOn surveyed c).label_item way.whole stands named)
  obtain ⟨m,u,v,spans,-⟩ := way.label_event here
  refine ⟨k,address,v,here,spans.after,?_⟩
  have placed := placeLabel_spec (typed_any p).closed (way.stateAt_valid spans.before) spans.done
  rw [placed.pending,caught]
  rfl

end Translates

-- The table has an entry for each clause of each range, in their order; an entry covers the code of
-- its range; and what a handler finds on the stack is of the type that its entries agree on.
structure ExceptionTable (c : Container) (item : CodeItem) (labels : LabelTable) (p : Plan) (start : State) (code : Code)
    (entries : List CatchEntry) : Prop where
  handled : ∀ range ∈ item.tries, (item.handlerFor range).isSome
  blocks : code.tryBlocks = entries.map CatchEntry.block
  each : List.Forall₂ (fun clause entry => entry.Of c labels clause ∧
    Encloses p start (item.body c labels) code clause.range entry.block) (item.clausesOf item.tries) entries
  caught : ∀ entry ∈ entries, ∃ k address t type, (item.body c labels)[k]? = some (.label address entry.block.handler) ∧
    stateAt p start (item.body c labels) (k + 1) = .ok t ∧ t.pending = some type ∧
    CaughtBy entries entry.block.handler type

theorem exception_table_exact (accepted : Code.ofItem c shape item file settings = .ok code) :
    ∃ labels p start final entries, Translates c shape item labels p start final ∧
      Code.bodyOf c item file settings = .ok (DecodedBody.ofCode c item.units labels) ∧
      code.events = final.draft.events.toList ∧ ExceptionTable c item labels p start code entries := by
  obtain ⟨scanned,info,labels,p,start,final,built⟩ := ofItem_built accepted
  obtain ⟨handled,entries,lists⟩ := Handlers.ofCode_lists built.way.planned.handlers
  refine ⟨labels,p,start,final,entries,built.way,built.body,built.events,handled,built.blocks.trans lists.blocks,?_,?_⟩
  · have ranged : ∀ clause ∈ item.clausesOf item.tries, clause.range ∈ item.tries := fun _ => CodeItem.clausesOf_range
    refine ((List.forall₂_and_left (p := fun clause : CatchClause => clause.range ∈ item.tries) _ _).mpr ⟨ranged,lists.each⟩).imp ?_
    rintro clause entry ⟨present,entered⟩
    obtain ⟨starts,inside⟩ := scan_range built.scan present
    exact ⟨entered,built.way.encloses built.surveyed built.events starts inside entered.start entered.stop⟩
  · intro entry member
    obtain ⟨type,known,agreed⟩ := lists.caught member
    obtain ⟨k,address,t,here,after,pending⟩ := built.way.handler_pending built.surveyed known
    exact ⟨k,address,t,type,here,after,pending,agreed⟩

-- The first range ends within an array and has one handler for two types. The second one has
-- that handler too, after one of its own for all exceptions.
def sharedHandler : CodeItem where
  registers := 1
  ins := 0
  outs := 0
  debugInfo := 0
  units := #[0x1012,0x0528,0x0300,0x0001,0x0000,0x0000,0x000e,0x000d,0x000e,0x000d,0x000e]
  tries := [⟨0,3,1⟩,⟨6,1,6⟩]
  handlers := [(1,⟨[⟨0,7⟩,⟨1,7⟩],none⟩),(6,⟨[⟨0,7⟩],some 9⟩)]

def twoTypes : Container where
  __ := bare
  strings := #["La/A;","La/B;"]
  types := #[0,1]

theorem exception_table_exact_sharedHandler :
    ∃ code, Code.ofItem twoTypes ⟨.object "a/T",true,⟨[],.void⟩⟩ sharedHandler none {} = .ok code ∧
      code.tryBlocks.map TryBlock.catchType = [some "a/A",some "a/B",some "a/A",none] ∧
      ∃ labels p start final entries,
        Translates twoTypes ⟨.object "a/T",true,⟨[],.void⟩⟩ sharedHandler labels p start final ∧
        Code.bodyOf twoTypes sharedHandler none {} = .ok (DecodedBody.ofCode twoTypes sharedHandler.units labels) ∧
        code.events = final.draft.events.toList ∧ ExceptionTable twoTypes sharedHandler labels p start code entries := by
  obtain ⟨code,accepted,types⟩ : ∃ code, Code.ofItem twoTypes ⟨.object "a/T",true,⟨[],.void⟩⟩ sharedHandler none {} = .ok code ∧
      code.tryBlocks.map TryBlock.catchType = [some "a/A",some "a/B",some "a/A",none] := ⟨_,rfl,rfl⟩
  exact ⟨code,accepted,types,exception_table_exact accepted⟩

end Restack
