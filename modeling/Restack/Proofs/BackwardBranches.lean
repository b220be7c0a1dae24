import Mathlib
import Restack.Proofs.Edges.Orderly
import Restack.Proofs.Lowering.Stored

namespace Restack

open Lowering

-- Branches to labels that are placed already. The code after such a label was lowered from
-- the frame that came to it from above, and the branch is compared with that frame: a
-- register with two kinds is refused, a register that has lost its value is not.

variable {c : Container} {shape : MethodShape} {item : CodeItem} {labels : LabelTable} {p : Plan} {start final s u v : State}
  {file : Option String} {settings : Settings} {code : Code} {g : Frame} {above address j k m r slot : Nat} {label : Label}
  {kind : Kind}

-- Exceptions that do not disturb what branches bring to a register. What a handler does not
-- hear in time is read as it is found, and no handler that a branch comes back to hears
-- anything after it is placed.
structure Undisturbed (p : Plan) (start : State) (items : List BodyItem) (code : Code) (d : Draft) (r slot : Nat) : Prop where
  read : ∀ k address label s m, ExceptionEdge p start items code k address label s m → ¬HeardInTime p address label s m →
    ReadAs code d s.frame m r slot
  heard : ∀ k label s m, BackwardBranch p start items code k label s m → ∀ j address u,
    ExceptionEdge p start items code j address label u m → label ∈ p.handlers.covering address → u.draft.events.size ≤ m

theorem state_of_kind {f : Frame} {d : Draft} (known : (f.kindAt? d r).isSome) : f.state r ≠ .unknown := by
  obtain ⟨kind,told⟩ := Option.isSome_iff_exists.mp known
  have seen := Frame.kindAt_outlook told
  intro none
  rw [none] at seen
  cases seen

namespace Translates

variable (way : Translates c shape item labels p start final)
include way

theorem label_once (one : (item.body c labels)[j]? = some (.label above label))
    (two : (item.body c labels)[k]? = some (.label address label)) : j = k := by
  have named := way.label_item (List.mem_of_getElem? one)
  obtain rfl := way.laid.distinct.address named (way.label_item (List.mem_of_getElem? two))
  rcases Nat.lt_trichotomy j k with less | same | more
  · exact absurd (way.place_order one two less) (Nat.lt_irrefl _)
  · exact same
  · exact absurd (way.place_order two one more) (Nat.lt_irrefl _)

theorem branch_targeted (back : BackwardBranch p start (item.body c labels) code k label s m) : labels.Targeted label := by
  obtain ⟨address,opcode,i,here,target⟩ := back.branch
  obtain ⟨e,-,decoded⟩ := way.decoded (List.mem_of_getElem? here)
  exact decoded.targets label target

theorem label_keeps (spans : Spans p start (item.body c labels) j m (.label above label) u v)
    (last : m + 1 = v.draft.events.size) (place : code.position? label = some m) (targeted : labels.Targeted label)
    (told : v.frame.state r ≠ .unknown)
    (known : ∀ k s, BackwardBranch p start (item.body c labels) code k label s m → s.frame.state r ≠ .unknown)
    (unheard : ∀ n address opcode i s, (item.body c labels)[n]? = some (.instruction address opcode i) →
      stateAt p start (item.body c labels) n = .ok s → m < s.draft.events.size → label ∉ p.handlers.covering address)
    (later : j < k) (reached : stateAt p start (item.body c labels) k = .ok s) : Keeps (fun _ => True) label v.frame r s := by
  have joins := placeLabel_joins (way.isJoin (List.mem_of_getElem? spans.here) targeted u) spans.done
  have start := (way.stateAt_valid spans.after).frame r
  refine stateAt_keeps spans.after ⟨start,v.frame,joins,rfl⟩ ?_ later reached
  intro n body s t past found now keeps done
  have valid := way.stateAt_valid now
  have placed : m < s.draft.events.size := by
    have grown := way.stateAt_size spans.after now past
    omega
  cases body with
  | label address other =>
    refine keeps.pastLabel (typed_any p) valid ?_ done
    intro numbers
    have same : label = other := by cases label; cases other; exact congrArg Label.mk numbers
    subst same
    have once := way.label_once spans.here found
    omega
  | instruction address opcode i =>
    refine keeps.pastInstruction (typed_any p) valid told (fun _ _ => trivial) (unheard n address opcode i s found now placed) ?_ done
    intro target
    exact known n s ⟨⟨address,opcode,i,found,target⟩,now,place,placed⟩

theorem branch_agrees (events : code.events = final.draft.events.toList)
    (undisturbed : Undisturbed p start (item.body c labels) code final.draft r slot)
    (holds : ∀ k label s m, BackwardBranch p start (item.body c labels) code k label s m →
      Holds code final.draft s.frame m r slot)
    (back : BackwardBranch p start (item.body c labels) code k label s m) (next : Meets p start (item.body c labels) m g)
    (reads : code.Reads slot kind m) (known : g.kindAt? final.draft r = some kind) :
    s.frame.kindAt? final.draft r = some kind := by
  obtain ⟨j,above,u,v,spans,last⟩ := way.label_spans (event_of events (Code.position_event back.place))
  obtain rfl := way.meets_label next spans last
  obtain ⟨address,opcode,i,here,target⟩ := back.branch
  have told := state_of_kind (by rw [known]; rfl)
  have later := way.label_before back.reached spans back.placed
  obtain ⟨last',ends⟩ := way.ends
  obtain ⟨t,after⟩ := stateAt_ok ends.ran (k + 1)
  have keeps := way.label_keeps (r := r) (k := k + 1) spans last back.place (way.branch_targeted back) told
    (fun k s again => state_of_kind (holds k label s m again kind reads))
    (fun n address opcode i s found now placed heard => by
      have early := undisturbed.heard k label _ m back n address s ⟨⟨opcode,i,found⟩,now,back.place,.inr heard⟩ heard
      omega) (Nat.lt_succ_of_lt later) after
  have guarded := way.jump_guards here target (Nat.lt_succ_self k) back.reached after
  have agree := keeps.agrees guarded told
  have finally_ := RegisterState.outlook_extends (way.final_extends after) (guarded.valid r) keeps.valid agree
  exact Frame.kindAt_of_outlook (finally_.trans (Frame.kindAt_outlook known))

end Translates

theorem undisturbed_orderly (way : Translates c shape item labels p start final) (surveyed : labels.Surveyed item)
    (events : code.events = final.draft.events.toList) (blocks : code.tryBlocks = p.handlers.blocks) (orderly : item.Orderly)
    (r slot : Nat) : Undisturbed p start (item.body c labels) code final.draft r slot := by
  constructor
  · intro k address label s m edge unheard
    exact absurd (way.orderly_heard surveyed events blocks orderly edge) unheard
  · intro k label s m _ j address u edge _
    exact (way.orderly_heard surveyed events blocks orderly edge).2

-- In an accepted body, where exceptions do not disturb it, what is read after branches back is
-- read as the frames at the branches have it exactly if those frames give a kind to the
-- register wherever it is read.
theorem backward_branches_read (accepted : Code.ofItem c shape item file settings = .ok code) :
    ∃ scanned info labels p start final, Code.Built c shape item file settings code scanned info labels p start final ∧
      (∀ k, ∃ s, stateAt p start (item.body c labels) k = .ok s) ∧
      ∀ r slot, p.slots.slot r = .ok slot →
        (item.Orderly → Undisturbed p start (item.body c labels) code final.draft r slot) ∧
        (Undisturbed p start (item.body c labels) code final.draft r slot →
          ((∀ k label s m, BackwardBranch p start (item.body c labels) code k label s m →
              ReadAs code final.draft s.frame m r slot) ↔
            ∀ k label s m, BackwardBranch p start (item.body c labels) code k label s m →
              Holds code final.draft s.frame m r slot)) := by
  obtain ⟨scanned,info,labels,p,start,final,built⟩ := ofItem_built accepted
  have way := built.way
  have events := built.events
  obtain ⟨last,ends⟩ := way.ends
  refine ⟨scanned,info,labels,p,start,final,built,stateAt_ok ends.ran,?_⟩
  intro r slot mine
  refine ⟨fun orderly => undisturbed_orderly way built.surveyed events built.blocks orderly r slot,?_⟩
  intro undisturbed
  constructor
  · intro read k label s m back kind reads
    rw [read k label s m back kind reads]
    rfl
  · intro holds k label s m back kind reads
    obtain ⟨g,next⟩ := way.meets (n := m) (by simpa [events] using reads.inside)
    have known := way.reads_kind events mine
      (fun k label s m g back next reads known => way.branch_agrees events undisturbed holds back next reads known)
      (fun k address label s m edge unheard reads => undisturbed.read k address label s m edge unheard kind reads)
      reads next
    exact way.branch_agrees events undisturbed holds back next reads known

-- A loop that compares v1 with zero and then writes a wide value to v0, which takes v1 as
-- its upper half.
def losesUpper : CodeItem where
  registers := 3
  ins := 1
  outs := 0
  debugInfo := 0
  units := #[0x2101,0x0138,0x0005,0x0016,0x0000,0xfc28,0x000e]
  tries := []
  handlers := []

def losesUpperShape : MethodShape := ⟨.object "a/T",true,⟨[.int],.void⟩⟩

-- The same with a value that is not wide, so that the branch back brings the int in v1.
def keepsUpper : CodeItem := { losesUpper with units := #[0x2101,0x0138,0x0005,0x0013,0x0000,0xfc28,0x000e], counted := by decide }

theorem backward_branches_read_keepsUpper :
    ∃ code scanned info labels p start final,
      Code.Built bare losesUpperShape keepsUpper none {} code scanned info labels p start final ∧ keepsUpper.Orderly ∧
      p.slots.slot 1 = .ok 2 ∧ Undisturbed p start (keepsUpper.body bare labels) code final.draft 1 2 ∧
      (∃ s, BackwardBranch p start (keepsUpper.body bare labels) code 5 ⟨2⟩ s 3 ∧ code.Reads 2 .int 3) ∧
      ∀ k label s m, BackwardBranch p start (keepsUpper.body bare labels) code k label s m →
        ReadAs code final.draft s.frame m 1 2 := by
  obtain ⟨code,labels,p,start,final,s,accepted,scan,prepared,finished,mine,back,reads,held⟩ :
      ∃ code labels p start final s, Code.ofItem bare losesUpperShape keepsUpper none {} = .ok code ∧
        LabelTable.scan keepsUpper = .ok labels ∧ prepare bare losesUpperShape keepsUpper labels = .ok (p,start) ∧
        finish p start (DecodedBody.ofCode bare keepsUpper.units labels) = .ok final ∧ p.slots.slot 1 = .ok 2 ∧
        BackwardBranch p start (keepsUpper.body bare labels) code 5 ⟨2⟩ s 3 ∧ code.Reads 2 .int 3 ∧
        backwardAll p start (keepsUpper.body bare labels) code (fun s => (s.frame.kindAt? final.draft 1).isSome) = true := by
    refine ⟨_,_,_,_,_,_,rfl,rfl,rfl,rfl,rfl,⟨⟨_,_,_,rfl,List.mem_singleton_self _⟩,rfl,rfl,by decide⟩,?_,rfl⟩
    exact .later rfl rfl (.inl (.falls rfl rfl (by decide))) (.here rfl)
  -- The run that the theorem speaks of is this one.
  obtain ⟨_,info,_,_,_,_,built,-,told⟩ := backward_branches_read accepted
  cases scan.symm.trans built.scan
  cases built.debug
  cases prepared.symm.trans built.way.prepared
  cases finished.symm.trans built.way.finished
  have orderly : keepsUpper.Orderly := by constructor <;> simp [keepsUpper,losesUpper]
  obtain ⟨undisturbed,agree⟩ := told 1 2 mine
  refine ⟨code,_,none,labels,p,start,final,built,orderly,mine,undisturbed orderly,⟨s,back,reads⟩,?_⟩
  refine (agree (undisturbed orderly)).mpr ?_
  intro k label s m back kind _
  exact back.passes held

-- The branch back brings no value for v1, and the loop reads an int there.
theorem losesUpper_unheld :
    ∃ code labels p start final s, Code.ofItem bare losesUpperShape losesUpper none {} = .ok code ∧
      LabelTable.scan losesUpper = .ok labels ∧ prepare bare losesUpperShape losesUpper labels = .ok (p,start) ∧
      finish p start (DecodedBody.ofCode bare losesUpper.units labels) = .ok final ∧
      code.events = final.draft.events.toList ∧ BackwardBranch p start (losesUpper.body bare labels) code 5 ⟨2⟩ s 3 ∧
      p.slots.slot 1 = .ok 2 ∧ code.Reads 2 .int 3 ∧ s.frame.kindAt? final.draft 1 = none := by
  refine ⟨_,_,_,_,_,_,rfl,rfl,rfl,rfl,rfl,⟨⟨_,_,_,rfl,List.mem_singleton_self _⟩,rfl,rfl,by decide⟩,rfl,?_,rfl⟩
  exact .later rfl rfl (.inl (.falls rfl rfl (by decide))) (.here rfl)

end Restack
