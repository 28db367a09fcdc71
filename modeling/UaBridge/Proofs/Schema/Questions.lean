import UaBridge.Proofs.Except
import UaBridge.Proofs.Schema.Inquiry
import UaBridge.Session

namespace UaBridge.Inquiry

variable {ε ε' α β : Type}

def asked (r : Resolver) : Inquiry ε α → List Query
  | done _ => []
  | fail _ => []
  | definition id next => .definition id :: (next (r.definition id)).asked r
  | supertypes id next => .supertypes id :: (next (r.supertypes id)).asked r
  | note _ next => next.asked r

section asked
variable (r : Resolver)

@[simp] theorem asked_pure (a : α) : (pure a : Inquiry ε α).asked r = [] := rfl

@[simp] theorem asked_done (a : α) : (done a : Inquiry ε α).asked r = [] := rfl

@[simp] theorem asked_fail (e : ε) : (fail e : Inquiry ε α).asked r = [] := rfl

@[simp] theorem asked_ofExcept (x : Except ε α) : (ofExcept x).asked r = [] := by
  cases x <;> rfl

@[simp] theorem asked_report (n : Note) : (report n : Inquiry ε Unit).asked r = [] := rfl

@[simp] theorem asked_askDefinition (refused : LookupError → ε) (id : NodeId) :
    (askDefinition refused id).asked r = [.definition id] := by
  simp only [askDefinition, asked]
  cases r.definition id <;> rfl

@[simp] theorem asked_askSupertypes (refused : LookupError → ε) (id : NodeId) :
    (askSupertypes refused id).asked r = [.supertypes id] := by
  simp only [askSupertypes, asked]
  cases r.supertypes id <;> rfl

@[simp] theorem asked_mapFailure (f : ε → ε') (q : Inquiry ε α) :
    (q.mapFailure f).asked r = q.asked r := by
  induction q with
  | done a => rfl
  | fail e => rfl
  | definition id next ih => exact congrArg (_ :: ·) (ih _)
  | supertypes id next ih => exact congrArg (_ :: ·) (ih _)
  | note n next ih => exact ih

theorem asked_bind (q : Inquiry ε α) (f : α → Inquiry ε β) :
    (q >>= f).asked r =
      q.asked r ++
        match q.eval r with
        | .ok a => (f a).asked r
        | .error _ => [] := by
  induction q with
  | done a => rfl
  | fail e => rfl
  | definition id next ih => exact congrArg (_ :: ·) (ih _)
  | supertypes id next ih => exact congrArg (_ :: ·) (ih _)
  | note n next ih => exact ih

variable {r}

theorem asked_bind_of_ok {q : Inquiry ε α} {f : α → Inquiry ε β} {a : α} (h : q.eval r = .ok a) :
    (q >>= f).asked r = q.asked r ++ (f a).asked r := by
  rw [asked_bind, h]

theorem asked_bind_of_error {q : Inquiry ε α} {f : α → Inquiry ε β} {e : ε}
    (h : q.eval r = .error e) : (q >>= f).asked r = q.asked r := by
  rw [asked_bind, h, List.append_nil]

theorem asked_mapM_of_ok {f : α → Inquiry ε β} {l : List α} {l' : List β}
    (h : (l.mapM f).eval r = .ok l') : (l.mapM f).asked r = l.flatMap fun a => (f a).asked r := by
  induction l generalizing l' with
  | nil => rfl
  | cons a l ih =>
    rw [List.mapM_cons, eval_bind, Except.bind_eq_ok_iff] at h
    obtain ⟨b, hb, h⟩ := h
    rw [eval_bind, Except.bind_eq_ok_iff] at h
    obtain ⟨bs, hbs, -⟩ := h
    rw [List.mapM_cons, asked_bind_of_ok hb, asked_bind_of_ok hbs, ih hbs]
    simp

end asked

def AsksOnly (r : Resolver) (P : Query → Prop) (q : Inquiry ε α) : Prop := ∀ x ∈ q.asked r, P x

namespace AsksOnly
variable {r : Resolver} {P : Query → Prop}

theorem of_asked_eq_nil {q : Inquiry ε α} (h : q.asked r = []) : q.AsksOnly r P := by
  simp [AsksOnly, h]

theorem bind {q : Inquiry ε α} {f : α → Inquiry ε β} (hq : q.AsksOnly r P)
    (hf : ∀ a, q.eval r = .ok a → (f a).AsksOnly r P) : (q >>= f).AsksOnly r P := by
  cases h : q.eval r with
  | error e => rwa [AsksOnly, asked_bind_of_error h]
  | ok a =>
    rw [AsksOnly, asked_bind_of_ok h]
    exact List.forall_mem_append.2 ⟨hq, hf a h⟩

theorem mapFailure {q : Inquiry ε α} {f : ε → ε'} (hq : q.AsksOnly r P) :
    (q.mapFailure f).AsksOnly r P := by
  rwa [AsksOnly, asked_mapFailure]

theorem mapM {f : α → Inquiry ε β} {l : List α} (h : ∀ a ∈ l, (f a).AsksOnly r P) :
    (l.mapM f).AsksOnly r P := by
  induction l with
  | nil => exact of_asked_eq_nil rfl
  | cons a l ih =>
    rw [List.forall_mem_cons] at h
    rw [List.mapM_cons]
    exact h.1.bind fun b _ => (ih h.2).bind fun bs _ => of_asked_eq_nil rfl

theorem eachIndexed {f : α → Inquiry Failure β} {l : List α} (h : ∀ a ∈ l, (f a).AsksOnly r P) :
    (eachIndexed f l).AsksOnly r P :=
  mapM fun p hp => (h p.1 (List.fst_mem_of_mem_zipIdx hp)).mapFailure

end AsksOnly
end UaBridge.Inquiry
