import UaBridge.Schema.Inquiry

namespace UaBridge

variable {ε ε' α β γ : Type}

namespace Inquiry

theorem bind_done (q : Inquiry ε α) : q.bind done = q := by
  induction q with
  | done a => rfl
  | fail e => rfl
  | definition id next ih => simp [bind, ih]
  | supertypes id next ih => simp [bind, ih]
  | note n next ih => simp [bind, ih]

theorem bind_assoc (q : Inquiry ε α) (f : α → Inquiry ε β) (g : β → Inquiry ε γ) :
    (q.bind f).bind g = q.bind fun a => (f a).bind g := by
  induction q with
  | done a => rfl
  | fail e => rfl
  | definition id next ih => simp [bind, ih]
  | supertypes id next ih => simp [bind, ih]
  | note n next ih => simp [bind, ih]

instance : LawfulMonad (Inquiry ε) :=
  LawfulMonad.mk' (Inquiry ε) bind_done (fun _ _ => rfl) bind_assoc

variable (r : Resolver)

@[simp] theorem eval_pure (a : α) : (pure a : Inquiry ε α).eval r = .ok a := rfl

@[simp] theorem eval_done (a : α) : (done a : Inquiry ε α).eval r = .ok a := rfl

@[simp] theorem eval_fail (e : ε) : (fail e : Inquiry ε α).eval r = .error e := rfl

@[simp] theorem eval_ofExcept (x : Except ε α) : (ofExcept x).eval r = x := by
  cases x <;> rfl

@[simp] theorem eval_report (n : Note) : (report n : Inquiry ε Unit).eval r = .ok () := rfl

@[simp] theorem eval_bind (q : Inquiry ε α) (f : α → Inquiry ε β) :
    (q >>= f).eval r = q.eval r >>= fun a => (f a).eval r := by
  induction q with
  | done a => rfl
  | fail e => rfl
  | definition id next ih => exact ih _
  | supertypes id next ih => exact ih _
  | note n next ih => exact ih

theorem eval_map (f : α → β) (q : Inquiry ε α) : (f <$> q).eval r = (q.eval r).map f := by
  refine (eval_bind r q (pure ∘ f)).trans ?_
  cases q.eval r <;> rfl

@[simp] theorem eval_mapFailure (f : ε → ε') (q : Inquiry ε α) :
    (q.mapFailure f).eval r = (q.eval r).mapError f := by
  induction q with
  | done a => rfl
  | fail e => rfl
  | definition id next ih => exact ih _
  | supertypes id next ih => exact ih _
  | note n next ih => exact ih

@[simp] theorem eval_within (step : Step) (q : Inquiry Failure α) :
    (q.within step).eval r = (q.eval r).mapError (·.within step) :=
  eval_mapFailure r _ q

@[simp] theorem eval_mapM (f : α → Inquiry ε β) (l : List α) :
    (l.mapM f).eval r = l.mapM fun a => (f a).eval r := by
  induction l with
  | nil => rfl
  | cons a l ih => simp only [List.mapM_cons, eval_bind, ih, eval_pure]; rfl

theorem eval_askDefinition (refused : LookupError → ε) (id : NodeId) :
    (askDefinition refused id).eval r = (r.definition id).mapError refused := by
  simp only [askDefinition, eval]
  cases r.definition id <;> rfl

theorem eval_askSupertypes (refused : LookupError → ε) (id : NodeId) :
    (askSupertypes refused id).eval r = (r.supertypes id).mapError refused := by
  simp only [askSupertypes, eval]
  cases r.supertypes id <;> rfl

theorem fst_run_journaled (q : Inquiry ε α) (journal : List Note) :
    (q.run r.journaled journal).1 = q.eval r := by
  induction q generalizing journal with
  | done a => rfl
  | fail e => rfl
  | definition id next ih => exact ih _ journal
  | supertypes id next ih => exact ih _ journal
  | note n next ih => exact ih (journal ++ [n])

@[simp] theorem run_ofExcept {σ : Type} {b : Backend σ} {s : σ} (x : Except ε α) :
    (ofExcept x).run b s = (x, s) := by
  cases x <;> rfl

end Inquiry
end UaBridge
