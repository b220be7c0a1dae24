import Mathlib
import Restack.Class.Description
import Restack.Proofs.LabelPlacement
import Restack.Proofs.Body.DebugLines

namespace Restack

-- A body that is described part by part and put together again. Lines are told where their labels are placed,
-- so they come back in the order of the placements; in code that was lowered that is the order they had.

theorem filter_append_filter {first later : α → Bool} {items : List α}
    (apart : ∀ item ∈ items, first item = true → later item = false)
    (ordered : items.Pairwise fun one two => later one = true → first two = false) :
    items.filter first ++ items.filter later = items.filter fun item => first item || later item := by
  induction items with
  | nil => rfl
  | cons item rest ih =>
    rw [List.pairwise_cons] at ordered
    have others := ih (fun other member => apart other (List.mem_cons_of_mem _ member)) ordered.2
    cases here : first item with
    | true =>
      have other := apart item List.mem_cons_self here
      simp only [List.filter_cons,here,other,Bool.true_or,if_true,Bool.false_eq_true,if_false,List.cons_append,others]
    | false =>
      cases next : later item with
      | false => simpa [List.filter_cons,here,next] using others
      | true =>
        -- Nothing after this item comes first.
        have none : rest.filter first = [] := by
          refine List.filter_eq_nil_iff.mpr fun other member => ?_
          simp [ordered.1 other member next]
        simp only [List.filter_cons,here,next,Bool.false_eq_true,if_false,if_true,Bool.or_true,none,List.nil_append,
          List.cons.injEq,true_and]
        simpa [none] using others

namespace Code

variable {c : Container} {shape : MethodShape} {item : CodeItem} {file : Option String} {settings : Settings} {code : Code}
  {lines : List (Nat × Label)} {placed : List Label} {events : List Event} {key : Label → Nat}

theorem map_passed (read : CodePart → Option β) (f : α → CodePart) (passes : ∀ a, read (f a) = none) (items : List α) :
    (items.map f).filterMap read = [] := by
  rw [List.filterMap_map]
  exact List.filterMap_eq_nil_iff.mpr fun a _ => passes a

theorem map_read (read : CodePart → Option α) (f : α → CodePart) (reads : ∀ a, read (f a) = some a) (items : List α) :
    (items.map f).filterMap read = items := by
  rw [List.filterMap_map,show read ∘ f = some from funext reads]
  exact List.filterMap_some

theorem events_passed (read : CodePart → Option β) (lines : List (Nat × Label)) (placed : List Label) (events : List Event)
    (labels : ∀ l, read (.label l) = none) (insns : ∀ i, read (.insn i) = none) (passes : ∀ n l, read (.line n l) = none) :
    (eventParts lines placed events).filterMap read = [] := by
  induction events generalizing placed with
  | nil => exact map_passed _ _ (fun _ => passes _ _) _
  | cons event rest ih =>
    cases event with
    | insn i =>
      rw [eventParts,List.filterMap_cons_none (insns i)]
      exact ih placed
    | label l =>
      rw [eventParts,List.filterMap_append,List.filterMap_cons_none (labels l),map_passed _ _ fun _ => passes _ _,ih]
      rfl

theorem events_of_parts (lines : List (Nat × Label)) (placed : List Label) (events : List Event) :
    (eventParts lines placed events).filterMap event? = events := by
  induction events generalizing placed with
  | nil => exact map_passed event? _ (fun _ => rfl) _
  | cons event rest ih =>
    cases event with
    | insn i =>
      have here : event? (.insn i) = some (.insn i) := rfl
      rw [eventParts,List.filterMap_cons_some here,ih]
    | label l =>
      have here : event? (.label l) = some (.label l) := rfl
      rw [eventParts,List.filterMap_append,List.filterMap_cons_some here,map_passed event? _ fun _ => rfl,ih]
      rfl

-- The lines in the order in which a body tells them, after some labels were placed.
def linesAlong (lines : List (Nat × Label)) (placed : List Label) (events : List Event) : List (Nat × Label) :=
  (eventParts lines placed events).filterMap line?

theorem linesAlong_nil : linesAlong lines placed [] = lines.filter fun line => !placed.contains line.2 :=
  map_read line? _ (fun _ => rfl) _

theorem linesAlong_insn (i : Insn) : linesAlong lines placed (.insn i :: events) = linesAlong lines placed events := by
  rw [linesAlong,eventParts,List.filterMap_cons_none rfl]
  rfl

theorem linesAlong_label (l : Label) : linesAlong lines placed (.label l :: events) =
    (if placed.contains l then [] else lines.filter fun line => line.2 = l) ++ linesAlong lines (l :: placed) events := by
  rw [linesAlong,eventParts,List.filterMap_append,List.filterMap_cons_none rfl,map_read line? _ fun _ => rfl]
  rfl

theorem parts_read (read : CodePart → Option β) (code : Code) : code.parts.filterMap read =
    (code.tryBlocks.filterMap fun block => read (.tryBlock block)) ++ (eventParts code.lines [] code.events).filterMap read ++
      code.locals.filterMap fun var => read (.localVar var) := by
  simp only [parts,List.filterMap_append,List.filterMap_map,Function.comp_def]

theorem ofParts_told (code : Code) : ofParts code.parts = { code with lines := linesAlong code.lines [] code.events } := by
  have blocks : code.parts.filterMap tryBlock? = code.tryBlocks := by
    rw [parts_read,events_passed tryBlock? _ _ _ (fun _ => rfl) (fun _ => rfl) fun _ _ => rfl]
    simp [tryBlock?]
  have events : code.parts.filterMap event? = code.events := by
    rw [parts_read,events_of_parts]
    simp [event?]
  have lines : code.parts.filterMap line? = linesAlong code.lines [] code.events := by
    rw [parts_read]
    simp [line?,linesAlong]
  have locals : code.parts.filterMap localVar? = code.locals := by
    rw [parts_read,events_passed localVar? _ _ _ (fun _ => rfl) (fun _ => rfl) fun _ _ => rfl]
    simp [localVar?]
  rw [ofParts,blocks,events,lines,locals]

-- The labels of the events rise, and the lines rise with them.
structure Rising (key : Label → Nat) (lines : List (Nat × Label)) (events : List Event) : Prop where
  labels : events.Pairwise fun one two => ∀ l m, one = .label l → two = .label m → key l < key m
  lines : lines.Pairwise fun one two => key one.2 ≤ key two.2

theorem linesAlong_rising (rising : Rising key lines events) (placed : List Label) (fresh : ∀ l ∈ placed, .label l ∉ events)
    (told : ∀ line ∈ lines, line.2 ∈ placed ∨ .label line.2 ∈ events) :
    linesAlong lines placed events = lines.filter fun line => events.contains (.label line.2) := by
  induction events generalizing placed with
  | nil =>
    rw [linesAlong_nil]
    refine List.filter_congr fun line member => ?_
    simpa using told line member
  | cons event rest ih =>
    obtain ⟨first,after⟩ := List.pairwise_cons.mp rising.labels
    cases event with
    | insn i =>
      have later := ih ⟨after,rising.lines⟩ placed (fun l member here => fresh l member (List.mem_cons_of_mem _ here))
        (by simpa using told)
      rw [linesAlong_insn,later]
      simp
    | label l =>
      have below : ∀ m, .label m ∈ rest → key l < key m := fun m member => first _ member l m rfl rfl
      have unseen : ¬ placed.contains l = true := by
        intro seen
        exact fresh l (by simpa using seen) List.mem_cons_self
      have others := ih ⟨after,rising.lines⟩ (l :: placed) (by
        intro m member here
        rcases List.mem_cons.mp member with rfl | old
        · exact absurd (below m here) (Nat.lt_irrefl _)
        · exact fresh m old (List.mem_cons_of_mem _ here))
        (by
          intro line member
          rcases told line member with old | here
          · exact .inl (List.mem_cons_of_mem _ old)
          · rcases List.mem_cons.mp here with same | later
            · exact .inl (by simp [Event.label.inj same])
            · exact .inr later)
      rw [linesAlong_label,if_neg unseen,others,filter_append_filter]
      · simp
      · intro line _ here
        simp only [decide_eq_true_eq] at here
        refine Bool.eq_false_iff.mpr fun there => ?_
        exact absurd (below line.2 (by simpa using there)) (by simp [here])
      · refine rising.lines.imp ?_
        intro one two le there
        refine decide_eq_false fun here => ?_
        have above := below one.2 (by simpa using there)
        rw [here] at le
        exact absurd le (Nat.not_le_of_lt above)

theorem ofParts_parts (rising : Rising key code.lines code.events) (placed : ∀ line ∈ code.lines, .label line.2 ∈ code.events) :
    ofParts code.parts = code := by
  have all : code.lines.filter (fun line => code.events.contains (.label line.2)) = code.lines :=
    List.filter_eq_self.mpr fun line member => by simpa using placed line member
  rw [ofParts_told,linesAlong_rising rising [] (by simp) (fun line member => .inr (placed line member)),all]

-- Lowered code has its labels in the order of their addresses, and so are its lines.
theorem ofItem_replayed (accepted : Code.ofItem c shape item file settings = .ok code) : ofParts code.parts = code := by
  obtain ⟨scanned,info,labels,p,start,final,built⟩ := ofItem_built accepted
  obtain ⟨address,known⟩ : ∃ address : Label → Nat, ∀ a l, labels.labelAt? a = some l → address l = a := by
    refine ⟨fun l => Classical.epsilon fun a => labels.labelAt? a = some l,?_⟩
    intro a l here
    have found := Classical.epsilon_spec (p := fun a => labels.labelAt? a = some l) ⟨a,here⟩
    exact built.way.laid.distinct.address found here
  have rising : Rising address code.lines code.events := by
    refine ⟨List.pairwise_iff_getElem.mpr ?_,?_⟩
    · intro n m inside within before l k first second
      obtain ⟨a,b,here,there,less⟩ := built.way.labels_ordered built.events
        (List.getElem?_eq_some_iff.mpr ⟨inside,first⟩) (List.getElem?_eq_some_iff.mpr ⟨within,second⟩) before
      rw [known a l here,known b k there]
      exact less
    · cases told : info with
      | none =>
        rw [(built.plain told).1]
        exact .nil
      | some found =>
        have debug := built.debug
        rw [told] at debug
        rw [(built.told found told).1,List.pairwise_map]
        refine (debugInfo_ordered (LabelTable.scan_surveyed built.scan) debug).imp ?_
        rintro one two ⟨a,b,le,here,there⟩
        rw [known a _ here,known b _ there]
        exact le
  refine ofParts_parts rising fun line member => ?_
  obtain ⟨m,placed⟩ := built.way.anchors_placed built.surveyed built.events (built.lines_anchor member)
  exact List.mem_of_getElem? ((placed m).mpr rfl)

end Code

end Restack
