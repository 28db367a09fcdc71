import UaBridge.Proofs.Except
import UaBridge.Proofs.Schema.Inquiry
import UaBridge.Session

namespace UaBridge

variable {σ ε ε' α β : Type}

/-- In some state the source refuses to answer, for the reason `e`. -/
def Backend.Refuses (b : Backend σ) (e : LookupError) : Query → Prop
  | .definition id => ∃ s, (b.definition id s).1 = .error e
  | .supertypes id => ∃ s, (b.supertypes id s).1 = .error e

namespace Failure
variable {f : Failure}

theorem kind_eq_of_source? {e : LookupError} (h : f.source? = some e) : f.kind = e.kind := by
  obtain ⟨path, cause⟩ := f
  cases cause with
  | lookup e' => cases h; rfl
  | _ => cases h

theorem kind_eq_resolverFailure_iff :
    f.kind = .resolverFailure ↔ ∃ reason, f.source? = some (.unavailable reason) := by
  constructor
  · intro h
    obtain ⟨path, cause⟩ := f
    cases cause with
    | lookup e =>
      cases e with
      | unavailable reason => exact ⟨reason, rfl⟩
      | _ => cases h
    | _ => cases h
  · rintro ⟨reason, h⟩
    exact kind_eq_of_source? h

def localKinds : List FailureKind :=
  [.unknownField, .typeMismatch, .precisionLoss, .arityMismatch, .malformedIdentifier]

theorem source?_eq_none_of_mem_localKinds (h : f.kind ∈ localKinds) : f.source? = none := by
  cases hsource : f.source? with
  | none => rfl
  | some e =>
    rw [kind_eq_of_source? hsource] at h
    cases e <;> simp [LookupError.kind, localKinds] at h

/-- What a failure says of the refusals that a type source has answered with. -/
structure Tells (f : Failure) (b : Backend σ) (refusals : List (Query × LookupError)) : Prop where
  resolverFailure_iff :
    f.kind = .resolverFailure ↔ ∃ reason, f.source? = some (.unavailable reason)
  unknownType : ∀ id, f.source? = some (.unknownType id) → f.kind = .unknownType
  cyclicType : ∀ id, f.source? = some (.cyclicHierarchy id) → f.kind = .cyclicType
  refused : ∀ e, f.source? = some e → ∃ x, refusals = [(x, e)] ∧ b.Refuses e x
  unrefused : (∀ e x, ¬b.Refuses e x) → f.source? = none
  sourceless : f.kind ∈ localKinds → f.source? = none

end Failure

namespace Inquiry

def refusals (b : Backend σ) : Inquiry ε α → σ → List (Query × LookupError)
  | done _, _ => []
  | fail _, _ => []
  | definition id next, s =>
    match b.definition id s with
    | (.ok d, t) => (next (.ok d)).refusals b t
    | (.error e, t) => (.definition id, e) :: (next (.error e)).refusals b t
  | supertypes id next, s =>
    match b.supertypes id s with
    | (.ok chain, t) => (next (.ok chain)).refusals b t
    | (.error e, t) => (.supertypes id, e) :: (next (.error e)).refusals b t
  | note n next, s => next.refusals b (b.note n s)

def Refused (e : LookupError) (q : Inquiry Failure α) : Prop :=
  ∃ f, q = fail f ∧ f.source? = some e

/-- What is refused becomes the source of the failure, at once; other failures have no source. -/
def Relays : Inquiry Failure α → Prop
  | done _ => True
  | fail f => f.source? = none
  | definition _ next => (∀ d, (next (.ok d)).Relays) ∧ ∀ e, (next (.error e)).Refused e
  | supertypes _ next => (∀ chain, (next (.ok chain)).Relays) ∧ ∀ e, (next (.error e)).Refused e
  | note _ next => next.Relays

def sourceOf? : Except Failure α → Option LookupError
  | .ok _ => none
  | .error f => f.source?

variable {b : Backend σ} {s : σ} {q : Inquiry Failure α} {e : LookupError}

theorem refuses_of_mem_refusals {q : Inquiry ε α} {x : Query} (h : (x, e) ∈ q.refusals b s) :
    b.Refuses e x := by
  induction q generalizing s with
  | done a => cases h
  | fail f => cases h
  | definition id next ih =>
    rw [refusals] at h
    split at h
    next => exact ih _ h
    next hanswer =>
      cases h with
      | head => exact ⟨s, congrArg Prod.fst hanswer⟩
      | tail _ h => exact ih _ h
  | supertypes id next ih =>
    rw [refusals] at h
    split at h
    next => exact ih _ h
    next hanswer =>
      cases h with
      | head => exact ⟨s, congrArg Prod.fst hanswer⟩
      | tail _ h => exact ih _ h
  | note n next ih => exact ih h

namespace Refused

theorem bind (h : q.Refused e) (f : α → Inquiry Failure β) : (q.bind f).Refused e := by
  obtain ⟨g, rfl, hsource⟩ := h
  exact ⟨g, rfl, hsource⟩

theorem within (h : q.Refused e) (step : Step) : (q.within step).Refused e := by
  obtain ⟨g, rfl, hsource⟩ := h
  exact ⟨g.within step, rfl, hsource⟩

theorem refusals_eq (h : q.Refused e) : q.refusals b s = [] := by
  obtain ⟨g, rfl, -⟩ := h
  rfl

theorem sourceOf?_run (h : q.Refused e) : sourceOf? (q.run b s).1 = some e := by
  obtain ⟨g, rfl, hsource⟩ := h
  exact hsource

end Refused

namespace Relays

theorem map_refusals (hq : q.Relays) :
    (q.refusals b s).map (·.2) = (sourceOf? (q.run b s).1).toList := by
  induction q generalizing s with
  | done a => rfl
  | fail f => exact (congrArg Option.toList hq).symm
  | definition id next ih =>
    rw [refusals, run]
    split
    next d t hanswer =>
      rw [hanswer]
      exact ih _ (hq.1 d)
    next e t hanswer =>
      rw [hanswer, (hq.2 e).refusals_eq]
      exact (congrArg Option.toList (hq.2 e).sourceOf?_run).symm
  | supertypes id next ih =>
    rw [refusals, run]
    split
    next chain t hanswer =>
      rw [hanswer]
      exact ih _ (hq.1 chain)
    next e t hanswer =>
      rw [hanswer, (hq.2 e).refusals_eq]
      exact (congrArg Option.toList (hq.2 e).sourceOf?_run).symm
  | note n next ih => exact ih hq

theorem bind {f : α → Inquiry Failure β} (hq : q.Relays) (hf : ∀ a, (f a).Relays) :
    (q >>= f).Relays := by
  induction q with
  | done a => exact hf a
  | fail f => exact hq
  | definition id next ih => exact ⟨fun d => ih _ (hq.1 d), fun e => (hq.2 e).bind f⟩
  | supertypes id next ih => exact ⟨fun chain => ih _ (hq.1 chain), fun e => (hq.2 e).bind f⟩
  | note n next ih => exact ih hq

theorem within (hq : q.Relays) (step : Step) : (q.within step).Relays := by
  induction q with
  | done a => trivial
  | fail f => exact hq
  | definition id next ih => exact ⟨fun d => ih _ (hq.1 d), fun e => (hq.2 e).within step⟩
  | supertypes id next ih => exact ⟨fun chain => ih _ (hq.1 chain), fun e => (hq.2 e).within step⟩
  | note n next ih => exact ih hq

theorem done (a : α) : (Inquiry.done a).Relays := trivial

theorem report (n : Note) : (Inquiry.report n).Relays := trivial

theorem ofExcept {x : Except Failure α} (h : x.FailsOnly (·.source? = none)) :
    (Inquiry.ofExcept x).Relays := by
  cases x with
  | ok a => trivial
  | error f => exact h f rfl

theorem mapM {f : α → Inquiry Failure β} {l : List α} (h : ∀ a, (f a).Relays) :
    (l.mapM f).Relays := by
  induction l with
  | nil => exact done []
  | cons a l ih =>
    rw [List.mapM_cons]
    exact (h a).bind fun b => ih.bind fun bs => done (b :: bs)

theorem eachIndexed {f : α → Inquiry Failure β} {l : List α} (h : ∀ a, (f a).Relays) :
    (eachIndexed f l).Relays :=
  mapM fun p => (h p.1).within (.index p.2)

end Relays

structure TellsRefusals (b : Backend σ) (s : σ) (q : Inquiry Failure α) : Prop where
  failed : ∀ f t, q.run b s = (.error f, t) → f.Tells b (q.refusals b s)
  succeeded : ∀ a t, q.run b s = (.ok a, t) → q.refusals b s = []

namespace Relays
variable {f : Failure} {t : σ}

theorem exists_refusal (hq : q.Relays) (h : q.run b s = (.error f, t)) (he : f.source? = some e) :
    ∃ x, q.refusals b s = [(x, e)] ∧ b.Refuses e x := by
  have hmap := hq.map_refusals (b := b) (s := s)
  rw [h, sourceOf?, he, Option.toList_some, List.map_eq_singleton_iff] at hmap
  obtain ⟨⟨x, e'⟩, hrefusals, rfl⟩ := hmap
  exact ⟨x, hrefusals, refuses_of_mem_refusals (hrefusals ▸ List.mem_singleton_self _)⟩

theorem refusals_eq_nil {a : α} (hq : q.Relays) (h : q.run b s = (.ok a, t)) :
    q.refusals b s = [] := by
  have hmap := hq.map_refusals (b := b) (s := s)
  rw [h] at hmap
  exact List.map_eq_nil_iff.1 hmap

theorem tellsRefusals (hq : q.Relays) : q.TellsRefusals b s where
  failed f t h :=
    { resolverFailure_iff := Failure.kind_eq_resolverFailure_iff
      unknownType := fun _ => Failure.kind_eq_of_source?
      cyclicType := fun _ => Failure.kind_eq_of_source?
      refused := fun _ => hq.exists_refusal h
      unrefused := fun hnone => by
        cases hsource : f.source? with
        | none => rfl
        | some e =>
          obtain ⟨x, -, hrefuses⟩ := hq.exists_refusal h hsource
          exact absurd hrefuses (hnone e x)
      sourceless := Failure.source?_eq_none_of_mem_localKinds }
  succeeded _ _ := hq.refusals_eq_nil

end Relays
end Inquiry
end UaBridge
