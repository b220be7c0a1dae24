import Mathlib
import Restack.Proofs.Edges.Sound
import Restack.Proofs.Lowering.Ranges

namespace Restack

open Lowering

-- In an orderly body every handler hears the instructions of its ranges before it is placed.

namespace Translates

variable {c : Container} {shape : MethodShape} {item : CodeItem} {labels : LabelTable} {p : Plan} {start final s : State}
  {code : Code} {range : TryItem} {block : TryBlock} {address first k m past : Nat} {label : Label} {opcode : Opcode}
  {i : Instruction} (way : Translates c shape item labels p start final)
include way

theorem label_place (events : code.events = final.draft.events.toList) (place : code.position? label = some m)
    (named : labels.labelAt? address = some label) :
    ∃ j u v, Spans p start (item.body c labels) j m (.label address label) u v ∧ m + 1 = v.draft.events.size := by
  obtain ⟨j,above,u,v,spans,last⟩ := way.label_spans (event_of events (Code.position_event place))
  obtain rfl := way.laid.distinct.address named (way.label_item (List.mem_of_getElem? spans.here))
  exact ⟨j,u,v,spans,last⟩

theorem range_covers (surveyed : labels.Surveyed item) (events : code.events = final.draft.events.toList)
    (opens : labels.labelAt? range.start.toNat = some block.start)
    (closes : labels.labelAt? (labels.snap range.past) = some block.stop)
    (here : (item.body c labels)[k]? = some (.instruction address opcode i))
    (reached : stateAt p start (item.body c labels) k = .ok s) (low : code.position? block.start = some first)
    (high : code.position? block.stop = some past) (after : first < s.draft.events.size)
    (before : s.draft.events.size ≤ past) : range.Covers address := by
  constructor
  · obtain ⟨j,u,v,spans,-⟩ := way.label_place events low opens
    have above := way.label_before reached spans after
    have ordered : 2 * range.start.toNat < 2 * address + 1 := way.place_order spans.here here above
    omega
  · by_contra beyond
    obtain ⟨e,stands,-⟩ := way.decoded (List.mem_of_getElem? here)
    have snapped := surveyed.snap_le stands (Nat.le_of_not_lt beyond)
    obtain ⟨j,u,v,spans,last⟩ := way.label_place events high closes
    have below := way.label_after here reached spans last before
    have ordered : 2 * address + 1 < 2 * labels.snap range.past := way.place_order here spans.here below
    omega

theorem orderly_heard (surveyed : labels.Surveyed item) (events : code.events = final.draft.events.toList)
    (blocks : code.tryBlocks = p.handlers.blocks) (orderly : item.Orderly)
    (edge : ExceptionEdge p start (item.body c labels) code k address label s m) : HeardInTime p address label s m := by
  have ranged := Handlers.ofCode_ranged way.planned.handlers
  obtain ⟨opcode,i,here⟩ := edge.instruction
  have heard : label ∈ p.handlers.covering address := by
    rcases edge.covered with ⟨block,member,first,past,rfl,low,high,after,before⟩ | heard
    · rw [blocks] at member
      obtain ⟨range,present,targets,reach,handles,opens,closes,kept⟩ := ranged.blocks block member
      have covers := way.range_covers surveyed events opens closes here edge.reached low high after before
      rwa [ranged.hears orderly present reach covers (kept address covers)]
    · exact heard
  refine ⟨heard,?_⟩
  obtain ⟨below,named,beyond⟩ := ranged.heard_below orderly heard
  obtain ⟨j,u,v,spans,-⟩ := way.label_place events edge.place named
  have later := way.above_first here spans.here beyond
  exact Nat.le_trans (way.stateAt_size edge.reached spans.before (Nat.le_of_lt later)) spans.low

end Translates

end Restack
