import Mathlib
import Restack.Bytes.Reader

namespace Restack

-- Computations that may end in a fault. What is said about them starts from the
-- result they gave, so each way to put them together is read backwards.

theorem bind_eq_ok {x : Except Fault α} {f : α → Except Fault β} {b : β} :
    x >>= f = .ok b ↔ ∃ a, x = .ok a ∧ f a = .ok b := by
  cases x with
  | error fault => simp [bind,Except.bind]
  | ok a => simp [bind,Except.bind]

theorem ok_bind (a : α) (f : α → Except Fault β) : (Except.ok a >>= f) = f a := rfl

theorem pure_eq_ok {a b : α} : (pure a : Except Fault α) = .ok b ↔ a = b := by
  simp [pure,Except.pure]

@[simp] theorem refuse_ne_ok {cause : Inexpressible} {a : α} : refuse cause ≠ .ok a := by
  simp [refuse]

@[simp] theorem reject_ne_ok {cause : Malformed} {a : α} : reject cause ≠ .ok a := by
  simp [reject]

@[simp] theorem within_eq_ok {x : Except Fault α} {a : α} : within context x = .ok a ↔ x = .ok a := by
  cases x <;> simp [within]

theorem toOption_eq_some {x : Except ε α} {a : α} : x.toOption = some a ↔ x = .ok a := by
  cases x <;> simp [Except.toOption]

theorem guard_eq_ok {p : Prop} [Decidable p] {cause : Inexpressible} {f : PUnit → Except Fault α} {a : α} :
    (if p then refuse cause >>= f else f ⟨⟩) = .ok a ↔ ¬p ∧ f ⟨⟩ = .ok a := by
  by_cases holds : p
  · simp [holds,bind_eq_ok]
  · simp [holds]

theorem foldlM_keeps {f : σ → α → Except Fault σ} {P : σ → Prop} {items : List α}
    (step : ∀ s item t, item ∈ items → P s → f s item = .ok t → P t)
    (start : P s) (ran : items.foldlM f s = .ok t) : P t := by
  induction items generalizing s with
  | nil =>
    cases ran
    exact start
  | cons item items ih =>
    rw [List.foldlM_cons,bind_eq_ok] at ran
    obtain ⟨middle,first,rest⟩ := ran
    refine ih ?_ (step s item middle List.mem_cons_self start first) rest
    intro s next t member
    exact step s next t (List.mem_cons_of_mem _ member)

theorem foldlM_append_ok {f : σ → α → Except Fault σ} {left right : List α} :
    (left ++ right).foldlM f s = .ok t ↔ ∃ m, left.foldlM f s = .ok m ∧ right.foldlM f m = .ok t := by
  rw [List.foldlM_append,bind_eq_ok]

theorem foldlM_snoc_ok {f : σ → α → Except Fault σ} {left : List α} {item : α} :
    (left ++ [item]).foldlM f s = .ok t ↔ ∃ m, left.foldlM f s = .ok m ∧ f m item = .ok t := by
  rw [foldlM_append_ok]
  simp [List.foldlM_cons]

theorem foldlM_mono {f g : σ → α → Except Fault σ} {items : List α} (more : ∀ s item t, f s item = .ok t → g s item = .ok t)
    (ran : items.foldlM f s = .ok t) : items.foldlM g s = .ok t := by
  induction items generalizing s with
  | nil => exact ran
  | cons item items ih =>
    rw [List.foldlM_cons,bind_eq_ok] at ran ⊢
    obtain ⟨middle,first,rest⟩ := ran
    exact ⟨middle,more s item middle first,ih rest⟩

theorem mapM_mono {f g : α → Except Fault β} {items : List α} {results : List β} (more : ∀ a b, f a = .ok b → g a = .ok b)
    (done : items.mapM f = .ok results) : items.mapM g = .ok results := by
  induction items generalizing results with
  | nil => exact done
  | cons first rest ih =>
    simp only [List.mapM_cons,bind_eq_ok,pure_eq_ok] at done ⊢
    obtain ⟨head,one,tail,others,rfl⟩ := done
    exact ⟨head,more first head one,tail,ih others,rfl⟩

theorem mapM_mem {f : α → Except Fault β} {items : List α} {results : List β} (done : items.mapM f = .ok results)
    (member : item ∈ items) : ∃ b ∈ results, f item = .ok b := by
  induction items generalizing results with
  | nil => cases member
  | cons first rest ih =>
    simp only [List.mapM_cons,bind_eq_ok,pure_eq_ok] at done
    obtain ⟨head,one,tail,others,rfl⟩ := done
    rcases List.mem_cons.mp member with rfl | later
    · exact ⟨head,List.mem_cons_self,one⟩
    · obtain ⟨b,found,here⟩ := ih others later
      exact ⟨b,List.mem_cons_of_mem _ found,here⟩

theorem mem_mapM {f : α → Except Fault β} {items : List α} {results : List β} (done : items.mapM f = .ok results)
    (member : b ∈ results) : ∃ item ∈ items, f item = .ok b := by
  induction items generalizing results with
  | nil =>
    cases done
    cases member
  | cons first rest ih =>
    simp only [List.mapM_cons,bind_eq_ok,pure_eq_ok] at done
    obtain ⟨head,one,tail,others,rfl⟩ := done
    rcases List.mem_cons.mp member with rfl | later
    · exact ⟨first,List.mem_cons_self,one⟩
    · obtain ⟨item,found,here⟩ := ih others later
      exact ⟨item,List.mem_cons_of_mem _ found,here⟩

theorem mapM_eq_ok {f : α → Except ε β} {items : List α} {results : List β} :
    items.mapM f = .ok results ↔ List.Forall₂ (fun a b => f a = .ok b) items results := by
  induction items generalizing results with
  | nil => simp [pure,Except.pure,eq_comm]
  | cons first rest ih =>
    rw [List.mapM_cons,List.forall₂_cons_left_iff]
    cases here : f first with
    | error fault => simp [bind,Except.bind]
    | ok b =>
      cases others : rest.mapM f with
      | error fault => simp [bind,Except.bind,← ih,others]
      | ok tail => simp [bind,Except.bind,pure,Except.pure,← ih,others,eq_comm]

theorem mapM_error {f : α → Except Fault β} {items : List α} {fault : Fault} (failed : items.mapM f = .error fault) :
    ∃ before item after, items = before ++ item :: after ∧ (∀ a ∈ before, ∃ b, f a = .ok b) ∧ f item = .error fault := by
  induction items with
  | nil => cases failed
  | cons first rest ih =>
    rw [List.mapM_cons] at failed
    cases here : f first with
    | error g =>
      rw [here] at failed
      cases failed
      exact ⟨[],first,rest,rfl,by simp,here⟩
    | ok b =>
      cases others : rest.mapM f with
      | error g =>
        rw [here,others] at failed
        cases failed
        obtain ⟨before,item,after,rfl,fine,found⟩ := ih others
        exact ⟨first :: before,item,after,rfl,List.forall_mem_cons.mpr ⟨⟨b,here⟩,fine⟩,found⟩
      | ok results =>
        rw [here,others] at failed
        cases failed

theorem mapM_fails {f : α → Except ε β} {before after : List α} {item : α} {e : ε} (fine : ∀ a ∈ before, ∃ b, f a = .ok b)
    (failed : f item = .error e) : (before ++ item :: after).mapM f = .error e := by
  induction before with
  | nil =>
    rw [List.nil_append,List.mapM_cons,failed]
    rfl
  | cons first rest ih =>
    obtain ⟨⟨b,here⟩,others⟩ := List.forall_mem_cons.mp fine
    rw [List.cons_append,List.mapM_cons,here,ih others]
    rfl

-- Readers are read backwards too, with the places where they stood.

theorem reader_bind_ok {r : Reader α} {f : α → Reader β} {bytes : Bytes} {start stop : Nat} {b : β} :
    (r >>= f) bytes start = .ok (b,stop) ↔
      ∃ a middle, r bytes start = .ok (a,middle) ∧ f a bytes middle = .ok (b,stop) := by
  change Reader.bind r f bytes start = .ok (b,stop) ↔ _
  unfold Reader.bind
  cases r bytes start with
  | error fault => simp
  | ok result =>
    obtain ⟨a,middle⟩ := result
    simp

theorem reader_pure_ok {bytes : Bytes} {start stop : Nat} {a b : α} :
    (pure a : Reader α) bytes start = .ok (b,stop) ↔ a = b ∧ start = stop := by
  change Reader.pure a bytes start = .ok (b,stop) ↔ _
  simp [Reader.pure]

theorem reader_lift_ok {x : Except Fault α} {bytes : Bytes} {start stop : Nat} {a : α} :
    (liftM x : Reader α) bytes start = .ok (a,stop) ↔ x = .ok a ∧ start = stop := by
  change Reader.lift x bytes start = .ok (a,stop) ↔ _
  cases x <;> simp [Reader.lift]

end Restack
