import UaBridge.Proofs.Schema.Reach

namespace UaBridge.Preload

variable {r : Resolver} {id : NodeId} {types : List NodeId}

/-- The search with no bound on its depth. `seen` has been visited, `todo` is still to be visited,
in this order; what is asked on the way, and the outcome. -/
inductive Visits (r : Resolver) :
    List NodeId → List NodeId → List Query → Except LookupError (List NodeId) → Prop
  | done {seen} : Visits r seen [] [] (.ok seen)
  | skip {seen id todo log x} : id.isStandard ∨ id ∈ seen → Visits r seen todo log x →
      Visits r seen (id :: todo) log x
  | enter {seen id todo types log x} : ¬(id.isStandard ∨ id ∈ seen) →
      (fieldTypesOf id).eval r = .ok types → Visits r (id :: seen) (types ++ todo) log x →
      Visits r seen (id :: todo) ((fieldTypesOf id).asked r ++ log) x
  | refuse {seen id todo e} : ¬(id.isStandard ∨ id ∈ seen) → (fieldTypesOf id).eval r = .error e →
      Visits r seen (id :: todo) ((fieldTypesOf id).asked r) (.error e)

namespace Visits
variable {seen seen' todo todo' : List NodeId} {log log' : List Query}
  {x x' : Except LookupError (List NodeId)}

theorem unique (h : Visits r seen todo log x) (h' : Visits r seen todo log' x') :
    log = log' ∧ x = x' := by
  induction h generalizing log' x' with
  | done =>
    cases h'
    exact ⟨rfl, rfl⟩
  | skip hold _ ih =>
    cases h' with
    | skip _ h' => exact ih h'
    | enter hnew => exact absurd hold hnew
    | refuse hnew => exact absurd hold hnew
  | enter hnew htypes _ ih =>
    cases h' with
    | skip hold => exact absurd hold hnew
    | enter _ htypes' h' =>
      cases htypes.symm.trans htypes'
      obtain ⟨rfl, rfl⟩ := ih h'
      exact ⟨rfl, rfl⟩
    | refuse _ herror => cases htypes.symm.trans herror
  | refuse hnew herror =>
    cases h' with
    | skip hold => exact absurd hold hnew
    | enter _ htypes => cases htypes.symm.trans herror
    | refuse _ herror' =>
      cases herror.symm.trans herror'
      exact ⟨rfl, rfl⟩

theorem subset (h : Visits r seen todo log (.ok seen')) : seen ⊆ seen' := by
  generalize hx : Except.ok seen' = x at h
  induction h with
  | done => cases hx; exact List.Subset.refl _
  | skip _ _ ih => exact ih hx
  | enter _ _ _ ih => exact List.Subset.trans (List.subset_cons_self _ _) (ih hx)
  | refuse => cases hx

theorem append (h : Visits r seen todo log (.ok seen')) (h' : Visits r seen' todo' log' x') :
    Visits r seen (todo ++ todo') (log ++ log') x' := by
  generalize hx : Except.ok seen' = x at h
  induction h with
  | done => cases hx; exact h'
  | skip hold _ ih => exact .skip hold (ih hx)
  | enter hnew htypes _ ih =>
    have hrest := ih hx
    rw [List.append_assoc] at hrest ⊢
    exact .enter hnew htypes hrest
  | refuse => cases hx

theorem append_of_error {e : LookupError} (h : Visits r seen todo log (.error e))
    (todo' : List NodeId) : Visits r seen (todo ++ todo') log (.error e) := by
  generalize hx : Except.error e = x at h
  induction h with
  | done => cases hx
  | skip hold _ ih => exact .skip hold (ih hx)
  | enter hnew htypes _ ih =>
    have hrest := ih hx
    rw [List.append_assoc] at hrest
    exact .enter hnew htypes hrest
  | refuse hnew herror => cases hx; exact .refuse hnew herror

end Visits

def unseen (ids seen : List NodeId) : List NodeId := ids.filter fun id => decide (id ∉ seen)

theorem length_unseen_le {ids seen seen' : List NodeId} (h : seen ⊆ seen') :
    (unseen ids seen').length ≤ (unseen ids seen).length := by
  simp only [unseen, ← List.countP_eq_length_filter]
  apply List.countP_mono_left
  intro id _ hid
  simp only [decide_eq_true_eq] at hid ⊢
  exact fun hmem => hid (h hmem)

theorem length_unseen_cons_lt {ids seen : List NodeId} (hid : id ∈ ids) (hseen : id ∉ seen) :
    (unseen ids (id :: seen)).length < (unseen ids seen).length := by
  have hcons : unseen ids (id :: seen) = (unseen ids seen).filter fun id' => decide (id' ≠ id) := by
    simp only [unseen, List.filter_filter, List.mem_cons, not_or, Bool.decide_and]
  rw [hcons, List.length_filter_lt_length_iff_exists]
  exact ⟨id, by simp [unseen, hid, hseen], by simp⟩

/-- The search ends, since every type that is entered is one of finitely many and has not been seen.
With as many steps as there are such types the bounded search is this one. -/
theorem visits_foldlM {ids : List NodeId} {steps : Nat} {seen todo : List NodeId}
    (hids : ∀ id chain, id.isStandard = false → r.supertypes id = .ok chain → id ∈ ids)
    (hsteps : (unseen ids seen).length < steps) :
    Visits r seen todo ((todo.foldlM (visit steps) seen).asked r)
      ((todo.foldlM (visit steps) seen).eval r) := by
  induction steps generalizing seen todo with
  | zero => cases hsteps
  | succ steps ih =>
    induction todo generalizing seen with
    | nil => exact .done
    | cons id todo ihtodo =>
      rw [List.foldlM_cons, visit_succ]
      split
      next hold => exact .skip hold (ihtodo hsteps)
      next hnew =>
        rw [bind_assoc, Inquiry.asked_bind, Inquiry.eval_bind]
        cases htypes : (fieldTypesOf id).eval r with
        | error e =>
          simp only [List.append_nil]
          exact .refuse hnew htypes
        | ok types =>
          refine .enter hnew htypes ?_
          rw [not_or, Bool.not_eq_true] at hnew
          obtain ⟨chain, hchain⟩ := supertypes_of_fieldTypesOf hnew.1 htypes
          have hlt := length_unseen_cons_lt (hids id chain hnew.1 hchain) hnew.2
          have hfields : Visits r (id :: seen) types _ _ := ih (by omega)
          simp only [Inquiry.asked_bind]
          change Visits r _ _ _ ((types.foldlM (visit steps) (id :: seen) >>= _).eval r)
          rw [Inquiry.eval_bind]
          cases houtcome : (types.foldlM (visit steps) (id :: seen)).eval r with
          | error e =>
            rw [houtcome] at hfields
            simp only [List.append_nil]
            exact hfields.append_of_error todo
          | ok seen' =>
            rw [houtcome] at hfields
            have hsub : seen ⊆ seen' :=
              List.Subset.trans (List.subset_cons_self _ _) hfields.subset
            exact hfields.append (ihtodo (Nat.lt_of_le_of_lt (length_unseen_le hsub) hsteps))

/-- What a search has done when it comes from `seen` to `seen'`: everything is known about the types
it has added, nothing is left to visit behind them, and what they need has been asked. -/
structure Explored (r : Resolver) (seen todo : List NodeId) (log : List Query)
    (seen' : List NodeId) : Prop where
  subset : seen ⊆ seen'
  visited : ∀ t ∈ todo, t.isStandard ∨ t ∈ seen'
  loads : ∀ t ∈ seen', t ∉ seen → r.Loads t
  behind : ∀ t ∈ seen', t ∉ seen → ∃ start ∈ todo, r.Behind start t
  closed : ∀ t ∈ seen', t ∉ seen → ∀ shape, r.EndsIn t (.structured shape) →
    ∀ f ∈ r.schema t, f.type.isStandard ∨ f.type ∈ seen'
  asked_iff : ∀ q, q ∈ log ↔ ∃ t ∈ seen', t ∉ seen ∧ r.Needs t q

namespace Explored
variable {seen seen' todo : List NodeId} {log : List Query}

theorem refl (r : Resolver) (seen : List NodeId) : Explored r seen [] [] seen where
  subset := List.Subset.refl seen
  visited := by simp
  loads t ht hnew := absurd ht hnew
  behind t ht hnew := absurd ht hnew
  closed t ht hnew := absurd ht hnew
  asked_iff q := by
    simp only [List.not_mem_nil, false_iff]
    rintro ⟨t, ht, hnew, -⟩
    exact hnew ht

theorem skip (hold : id.isStandard ∨ id ∈ seen) (h : Explored r seen todo log seen') :
    Explored r seen (id :: todo) log seen' where
  subset := h.subset
  visited := List.forall_mem_cons.2 ⟨hold.imp_right fun hid => h.subset hid, h.visited⟩
  loads := h.loads
  behind t ht hnew := by
    obtain ⟨start, hstart, hbehind⟩ := h.behind t ht hnew
    exact ⟨start, List.mem_cons_of_mem id hstart, hbehind⟩
  closed := h.closed
  asked_iff := h.asked_iff

theorem enter (hid : id.isStandard = false) (hnew : id ∉ seen)
    (htypes : (fieldTypesOf id).eval r = .ok types)
    (h : Explored r (id :: seen) (types ++ todo) log seen') :
    Explored r seen (id :: todo) ((fieldTypesOf id).asked r ++ log) seen' := by
  have hmem : id ∈ seen' := h.subset List.mem_cons_self
  have hloads : r.Loads id := (loads_iff_exists_fieldTypesOf hid).2 ⟨types, htypes⟩
  have hcases (t : NodeId) (ht : t ∉ seen) : t = id ∨ t ∉ id :: seen := by
    by_cases heq : t = id
    · exact .inl heq
    · exact .inr (List.not_mem_cons_of_ne_of_not_mem heq ht)
  constructor
  · exact List.Subset.trans (List.subset_cons_self id seen) h.subset
  · exact List.forall_mem_cons.2
      ⟨.inr hmem, fun t ht => h.visited t (List.mem_append_right types ht)⟩
  · intro t ht htnew
    obtain rfl | htnew := hcases t htnew
    · exact hloads
    · exact h.loads t ht htnew
  · intro t ht htnew
    obtain rfl | htnew := hcases t htnew
    · exact ⟨t, List.mem_cons_self, .self hid⟩
    · obtain ⟨start, hstart, hbehind⟩ := h.behind t ht htnew
      exact behind_of_mem_types hid htypes hstart hbehind
  · intro t ht htnew shape hends f hf
    obtain rfl | htnew := hcases t htnew
    · apply h.visited
      exact List.mem_append_left todo ((mem_types_iff hid htypes).2 ⟨shape, hends, f, hf, rfl⟩)
    · exact h.closed t ht htnew shape hends f hf
  · intro q
    rw [List.mem_append, mem_asked_fieldTypesOf_iff hid hloads, h.asked_iff]
    constructor
    · rintro (hq | ⟨t, ht, htnew, hq⟩)
      · exact ⟨id, hmem, hnew, hq⟩
      · exact ⟨t, ht, List.not_mem_of_not_mem_cons htnew, hq⟩
    · rintro ⟨t, ht, htnew, hq⟩
      obtain rfl | htnew := hcases t htnew
      · exact .inl hq
      · exact .inr ⟨t, ht, htnew, hq⟩

end Explored

namespace Visits
variable {seen seen' todo : List NodeId} {log : List Query} {t : NodeId}

theorem explored (h : Visits r seen todo log (.ok seen')) : Explored r seen todo log seen' := by
  generalize hx : Except.ok seen' = x at h
  induction h with
  | done => cases hx; exact .refl r _
  | skip hold _ ih => exact (ih hx).skip hold
  | enter hnew htypes _ ih =>
    rw [not_or, Bool.not_eq_true] at hnew
    exact (ih hx).enter hnew.1 hnew.2 htypes
  | refuse => cases hx

theorem exists_not_loads {e : LookupError} (h : Visits r seen todo log (.error e)) :
    ∃ start ∈ todo, ∃ t, r.Behind start t ∧ ¬r.Loads t := by
  generalize hx : Except.error e = x at h
  induction h with
  | done => cases hx
  | skip _ _ ih =>
    obtain ⟨start, hstart, hfailed⟩ := ih hx
    exact ⟨start, List.mem_cons_of_mem _ hstart, hfailed⟩
  | enter hnew htypes _ ih =>
    rw [not_or, Bool.not_eq_true] at hnew
    obtain ⟨start, hstart, t, hbehind, hfailed⟩ := ih hx
    obtain ⟨start', hstart', hbehind'⟩ := behind_of_mem_types hnew.1 htypes hstart hbehind
    exact ⟨start', hstart', t, hbehind', hfailed⟩
  | @refuse _ id _ _ hnew herror =>
    rw [not_or, Bool.not_eq_true] at hnew
    refine ⟨id, List.mem_cons_self, id, .self hnew.1, fun hloads => ?_⟩
    obtain ⟨types, htypes⟩ := (loads_iff_exists_fieldTypesOf hnew.1).1 hloads
    cases htypes.symm.trans herror

theorem mem_iff_behind (h : Visits r [] [id] log (.ok seen')) : t ∈ seen' ↔ r.Behind id t := by
  constructor
  · intro ht
    obtain ⟨start, hstart, hbehind⟩ := h.explored.behind t ht List.not_mem_nil
    rwa [List.mem_singleton.1 hstart] at hbehind
  · intro ht
    induction ht with
    | self hid =>
      exact (h.explored.visited id List.mem_cons_self).resolve_left (by simp [hid])
    | @field t shape f _ hends hf hstandard ih =>
      exact (h.explored.closed t ih List.not_mem_nil shape hends f hf).resolve_left
        (by simp [hstandard])

end Visits

section all
variable {ids : List NodeId} {known : Nat}
  (hids : ∀ id chain, id.isStandard = false → r.supertypes id = .ok chain → id ∈ ids)
  (hknown : ids.length ≤ known)
include hids hknown

theorem visits_all (id : NodeId) :
    ∃ x, Visits r [] [id] ((all known id).asked r) x ∧
      (all known id).eval r = x.map fun _ => () := by
  have hsteps : (unseen ids []).length < known + 1 :=
    Nat.lt_succ_of_le (Nat.le_trans (List.length_filter_le _ _) hknown)
  have hvisits : Visits r [] [id] _ _ := visits_foldlM hids hsteps
  simp only [List.foldlM_cons, List.foldlM_nil, bind_pure] at hvisits
  have hall : all known id = visit (known + 1) [] id >>= fun _ => .done () := rfl
  rw [hall, Inquiry.asked_bind, Inquiry.eval_bind]
  refine ⟨(visit (known + 1) [] id).eval r, ?_, ?_⟩
  · cases houtcome : (visit (known + 1) [] id).eval r <;> simpa [houtcome] using hvisits
  · cases (visit (known + 1) [] id).eval r <;> rfl

theorem all_eval_eq_ok_iff (id : NodeId) :
    (all known id).eval r = .ok () ↔ ∀ t, r.Behind id t → r.Loads t := by
  obtain ⟨x, hvisits, heval⟩ := visits_all hids hknown id
  rw [heval]
  cases x with
  | ok seen =>
    refine ⟨fun _ t ht => ?_, fun _ => rfl⟩
    exact hvisits.explored.loads t (hvisits.mem_iff_behind.2 ht) List.not_mem_nil
  | error e =>
    obtain ⟨start, hstart, t, hbehind, hfailed⟩ := hvisits.exists_not_loads
    rw [List.mem_singleton.1 hstart] at hbehind
    constructor
    · intro h
      cases h
    · intro h
      exact absurd (h t hbehind) hfailed

theorem mem_asked_all_iff {q : Query} (h : (all known id).eval r = .ok ()) :
    q ∈ (all known id).asked r ↔ ∃ t, r.Behind id t ∧ r.Needs t q := by
  obtain ⟨x, hvisits, heval⟩ := visits_all hids hknown id
  rw [h] at heval
  cases x with
  | ok seen =>
    rw [hvisits.explored.asked_iff]
    simp [hvisits.mem_iff_behind]
  | error e => cases heval

end all

end UaBridge.Preload
