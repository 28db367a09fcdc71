import UaBridge.Proofs.Except
import UaBridge.Proofs.Schema.Inquiry

namespace UaBridge

theorem forall_mem_right_of_forall₂ {α β : Type} {P : β → Prop} {l : List α} {m : List β}
    (h : List.Forall₂ (fun _ b => P b) l m) : ∀ b ∈ m, P b := by
  induction h with
  | nil => simp
  | cons hb _ ih => exact List.forall_mem_cons.2 ⟨hb, ih⟩

namespace Inquiry

variable {σ α β : Type} {E : Cause → Prop} {P P' : α → Prop} {Q : β → Prop}

/-- Whatever the answers are, the outcome is a result with `P`, or a failure whose cause has `E`. -/
def Yields (E : Cause → Prop) (P : α → Prop) : Inquiry Failure α → Prop
  | done a => P a
  | fail f => E f.cause
  | definition _ next => ∀ answer, (next answer).Yields E P
  | supertypes _ next => ∀ answer, (next answer).Yields E P
  | note _ next => next.Yields E P

namespace Yields
variable {q : Inquiry Failure α}

theorem run {b : Backend σ} {s : σ} (hq : q.Yields E P) :
    (∀ a, (q.run b s).1 = .ok a → P a) ∧ ∀ f, (q.run b s).1 = .error f → E f.cause := by
  induction q generalizing s with
  | done a => exact ⟨fun _ h => Except.ok.inj h ▸ hq, nofun⟩
  | fail f => exact ⟨nofun, fun _ h => Except.error.inj h ▸ hq⟩
  | definition id next ih => exact ih _ (hq _)
  | supertypes id next ih => exact ih _ (hq _)
  | note n next ih => exact ih hq

theorem done {a : α} (h : P a) : (Inquiry.done a).Yields E P := h

theorem report (n : Note) : (Inquiry.report n).Yields E fun _ => True := trivial

theorem ofExcept {x : Except Failure α} (hfails : x.FailsOnly fun f => E f.cause)
    (hx : ∀ a, x = .ok a → P a) : (Inquiry.ofExcept x).Yields E P := by
  cases x with
  | ok a => exact hx a rfl
  | error f => exact hfails f rfl

theorem bind {f : α → Inquiry Failure β} (hq : q.Yields E P) (hf : ∀ a, P a → (f a).Yields E Q) :
    (q >>= f).Yields E Q := by
  induction q with
  | done a => exact hf a hq
  | fail e => exact hq
  | definition id next ih => exact fun answer => ih answer (hq answer)
  | supertypes id next ih => exact fun answer => ih answer (hq answer)
  | note n next ih => exact ih hq

theorem imp (hq : q.Yields E P) (h : ∀ a, P a → P' a) : q.Yields E P' := by
  rw [← bind_done q]
  exact hq.bind h

theorem within (hq : q.Yields E P) (step : Step) : (q.within step).Yields E P := by
  induction q with
  | done a => exact hq
  | fail e => exact hq
  | definition id next ih => exact fun answer => ih answer (hq answer)
  | supertypes id next ih => exact fun answer => ih answer (hq answer)
  | note n next ih => exact ih hq

theorem mapM {f : α → Inquiry Failure β} {R : α → β → Prop} {l : List α}
    (h : ∀ a ∈ l, (f a).Yields E (R a)) : (l.mapM f).Yields E (List.Forall₂ R l) := by
  induction l with
  | nil => exact done .nil
  | cons a l ih =>
    rw [List.forall_mem_cons] at h
    rw [List.mapM_cons]
    exact h.1.bind fun b hb => (ih h.2).bind fun bs hbs => done (.cons hb hbs)

theorem eachIndexed {f : α → Inquiry Failure β} {R : α → β → Prop} {l : List α}
    (h : ∀ a ∈ l, (f a).Yields E (R a)) : (eachIndexed f l).Yields E (List.Forall₂ R l) := by
  refine (mapM (R := fun p b => R p.1 b) fun p hp => ?_).imp fun bs hbs => ?_
  · exact (h p.1 (List.fst_mem_of_mem_zipIdx hp)).within (.index p.2)
  · rwa [← List.forall₂_map_left_iff, List.zipIdx_map_fst] at hbs

end Yields
end Inquiry
end UaBridge
