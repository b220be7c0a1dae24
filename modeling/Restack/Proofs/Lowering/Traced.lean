import Mathlib
import Restack.Proofs.Lowering.Evolves
import Restack.Proofs.Stack.Depth

namespace Restack

-- Instructions that neither move a register nor lead elsewhere.
def Insn.isPlain : Insn → Bool
  | .load .. | .store .. | .jump .. | .tableSwitch .. | .lookupSwitch .. => false
  | _ => true

def Insn.isTransfer : Insn → Bool
  | .load .. | .store .. => true
  | _ => false

def Insn.isStore : Insn → Bool
  | .store .. => true
  | _ => false

def Insn.drops : Insn → Bool
  | .pop | .pop2 => true
  | _ => false

theorem Insn.isPlain_parts {i : Insn} (plain : i.isPlain = true) : i.targets = [] ∧ i.isTransfer = false := by
  cases i <;> first | exact ⟨rfl,rfl⟩ | cases plain

namespace Lowering

-- What the emitted instructions have to do with the registers. A load knows the kind of
-- its register or waits for it, a store and the write of its register go together, and
-- before a jump control arrives at its targets.

variable {P : Descriptor → Prop} {p : Plan} {s t m : State} {left right log : List Insn} {label : Label} {labels : List Label}
  {arrival : Arrival}

inductive Traced (P : Descriptor → Prop) (p : Plan) : State → List Insn → State → Prop where
  | refl {s : State} : Traced P p s [] s
  | quiet {s m t : State} {log : List Insn} : Traced P p s log m → Evolves P m [] t → t.frame = m.frame → t.joins = m.joins →
      Traced P p s log t
  | code {s m n t : State} {log : List Insn} {i : Insn} {labels : List Label} : Traced P p s log m →
      (∀ label, label ∈ labels ↔ label ∈ i.targets) → m.arriveAll labels .branch = .ok n → Evolves P n [i] t →
      t.frame = n.frame → t.joins = n.joins → i.isTransfer = false → Traced P p s (log ++ [i]) t
  | load {s m : State} {log : List Insn} {r slot : Nat} {kind : Kind} : Traced P p s log m → p.slots.slot r = .ok slot →
      (m.frame.state r).outlook m.draft = .kind (some kind) → Traced P p s (log ++ [.load kind slot]) (m.emit (.load kind slot))
  | look {s m : State} {log : List Insn} {r slot : Nat} {kind : Kind} {g : Group} : Traced P p s log m →
      p.slots.slot r = .ok slot → (m.frame.state r).group? = some g →
      m.draft.Has g ∧ m.draft.resolution? g = none ∧ kind.untyped = kind →
      Traced P p s (log ++ [.load kind slot]) (m.emitSite g (.load kind slot))
  | store {s m t : State} {log : List Insn} {r slot : Nat} {kind : Kind} {value : RegisterState} : Traced P p s log m →
      p.slots.slot r = .ok slot → Evolves P m [.store kind slot] t → m.frame.set r value = .ok t.frame → t.joins = m.joins →
      Traced P p s (log ++ [.store kind slot]) t

theorem arrive_same (done : s.arrive label arrival = .ok t) : t.pending = s.pending ∧ t.frame = s.frame := by
  rcases arrive_ok.mp done with ⟨-,rfl⟩ | ⟨stored,joined,d,-,-,rfl⟩
  · exact ⟨rfl,rfl⟩
  · exact ⟨rfl,rfl⟩

theorem arriveAll_same (done : s.arriveAll labels arrival = .ok t) : t.pending = s.pending ∧ t.frame = s.frame := by
  unfold State.arriveAll at done
  refine foldlM_keeps (P := fun m => m.pending = s.pending ∧ m.frame = s.frame) ?_ ⟨rfl,rfl⟩ done
  rintro m label t - ⟨pending,frame⟩ arrived
  obtain ⟨kept,still⟩ := arrive_same arrived
  exact ⟨kept.trans pending,still.trans frame⟩

theorem evolves_arriveAll (done : s.arriveAll labels arrival = .ok t) : Evolves P s [] t := by
  unfold State.arriveAll at done
  refine foldlM_keeps (P := fun m => Evolves P s [] m) ?_ .refl done
  intro m label t _ path arrived
  exact .arrive path arrived

theorem Traced.path (traced : Traced P p s log t) : Evolves P s log t := by
  induction traced with
  | refl => exact .refl
  | quiet _ path _ _ ih => simpa using ih.trans path
  | code _ _ arrived path _ _ _ ih => simpa using (ih.trans (evolves_arriveAll arrived)).trans path
  | load _ _ _ ih => exact .emit _ ih
  | look _ _ _ waits ih =>
    obtain ⟨has,free,plain⟩ := waits
    exact .site ih has (by simp [Insn.untyped,plain]) (.inl free)
  | store _ _ path _ _ ih => exact ih.trans path

theorem Traced.trans (first : Traced P p s left m) (second : Traced P p m right t) : Traced P p s (left ++ right) t := by
  induction second with
  | refl => simpa using first
  | quiet _ path frame joins ih => exact .quiet ih path frame joins
  | code _ same arrived path frame joins still ih =>
    rw [← List.append_assoc]
    exact .code ih same arrived path frame joins still
  | load _ placed known ih => rw [← List.append_assoc]; exact .load ih placed known
  | look _ placed group waits ih => rw [← List.append_assoc]; exact .look ih placed group waits
  | store _ placed path written joins ih => rw [← List.append_assoc]; exact .store ih placed path written joins

theorem traced_emitAll (plain : ∀ i ∈ log, i.isPlain = true) : Traced P p s log (s.emitAll log) := by
  induction log generalizing s with
  | nil => exact .refl
  | cons i rest ih =>
    obtain ⟨nowhere,still⟩ := Insn.isPlain_parts (plain i List.mem_cons_self)
    have one : Traced P p s ([] ++ [i]) (s.emit i) :=
      .code .refl (fun label => by rw [nowhere]) rfl (.emit i .refl) rfl rfl still
    exact one.trans (ih (s := s.emit i) fun j member => plain j (List.mem_cons_of_mem _ member))

theorem arriveAll_single (done : s.arrive label arrival = .ok t) : s.arriveAll [label] arrival = .ok t := by
  simp [State.arriveAll,done]

end Lowering

end Restack
