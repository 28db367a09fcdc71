import UaBridge.Bridge.Scalar
import UaBridge.Proofs.Except
import UaBridge.Proofs.Schema.Inquiry

namespace UaBridge

structure Failure.Alike (f g : Failure) : Prop where
  kind : f.kind = g.kind
  source : f.source? = g.source?

namespace Failure
variable {f g : Failure}

theorem Alike.refl (f : Failure) : f.Alike f := ⟨rfl, rfl⟩

theorem Alike.within {s t : Step} (h : f.Alike g) : (f.within s).Alike (g.within t) :=
  ⟨h.kind, h.source⟩

end Failure

variable {α β γ δ : Type} {R : α → β → Prop} {S : γ → δ → Prop}

theorem forall₂_zipIdx {l : List α} {m : List β} (h : List.Forall₂ R l m) (i j : Nat) :
    List.Forall₂ (fun p q => R p.1 q.1) (l.zipIdx i) (m.zipIdx j) := by
  induction h generalizing i j with
  | nil => exact .nil
  | cons hab _ ih => exact .cons hab (ih (i + 1) (j + 1))

theorem eachIndexed_agree {f : α → Except Failure γ} {g : β → Except Failure γ} {l : List α}
    {m : List β} (h : List.Forall₂ (fun a b => (f a).Agree Failure.Alike Eq (g b)) l m) :
    (eachIndexed f l).Agree Failure.Alike Eq (eachIndexed g m) := by
  rw [← List.forall₂_eq_eq_eq]
  refine .mapM ((forall₂_zipIdx h 0 0).imp fun p q hpq => ?_)
  exact hpq.mapError fun _ _ halike => halike.within

namespace Inquiry

/-- Both inquiries succeed, with results related by `R`, or both fail alike. -/
def Agree (r : Resolver) (R : α → β → Prop) (q : Inquiry Failure α) (q' : Inquiry Failure β) :
    Prop :=
  (q.eval r).Agree Failure.Alike R (q'.eval r)

namespace Agree
variable {r : Resolver} {q : Inquiry Failure α} {q' : Inquiry Failure β}

theorem refl (q : Inquiry Failure α) : q.Agree r Eq q := Except.Agree.refl Failure.Alike.refl _

theorem done {a : α} {b : β} (h : R a b) : (Inquiry.done a).Agree r R (Inquiry.done b) := .ok h

theorem fail {f g : Failure} (h : f.Alike g) :
    (Inquiry.fail f : Inquiry Failure α).Agree r R (Inquiry.fail g : Inquiry Failure β) :=
  .error h

theorem ofExcept {x : Except Failure α} {y : Except Failure β} (h : x.Agree Failure.Alike R y) :
    (Inquiry.ofExcept x).Agree r R (Inquiry.ofExcept y) := by
  rwa [Agree, eval_ofExcept, eval_ofExcept]

theorem bind {f : α → Inquiry Failure γ} {g : β → Inquiry Failure δ} (h : q.Agree r R q')
    (hf : ∀ a b, q.eval r = .ok a → q'.eval r = .ok b → R a b → (f a).Agree r S (g b)) :
    (q >>= f).Agree r S (q' >>= g) := by
  rw [Agree, eval_bind, eval_bind]
  exact Except.Agree.bind h hf

theorem bind_right {q q' : Inquiry Failure α} (h : q.Agree r Eq q') (f : α → Inquiry Failure γ) :
    (q >>= f).Agree r Eq (q' >>= f) :=
  h.bind fun _ _ _ _ hab => hab ▸ refl _

theorem bind_left {q : Inquiry Failure α} {f : α → Inquiry Failure γ} {g : α → Inquiry Failure δ}
    (hf : ∀ a, q.eval r = .ok a → (f a).Agree r S (g a)) : (q >>= f).Agree r S (q >>= g) :=
  (refl q).bind fun a _ ha _ hab => hab ▸ hf a ha

theorem within {s t : Step} (h : q.Agree r R q') : (q.within s).Agree r R (q'.within t) := by
  rw [Agree, eval_within, eval_within]
  exact Except.Agree.mapError h fun _ _ halike => halike.within

theorem mapM {f : α → Inquiry Failure γ} {g : β → Inquiry Failure γ} {l : List α} {m : List β}
    (h : List.Forall₂ (fun a b => (f a).Agree r Eq (g b)) l m) :
    (l.mapM f).Agree r Eq (m.mapM g) := by
  rw [Agree, eval_mapM, eval_mapM, ← List.forall₂_eq_eq_eq]
  exact Except.Agree.mapM h

theorem eachIndexed {f : α → Inquiry Failure γ} {g : β → Inquiry Failure γ} {l : List α}
    {m : List β} (h : List.Forall₂ (fun a b => (f a).Agree r Eq (g b)) l m) :
    (eachIndexed f l).Agree r Eq (eachIndexed g m) :=
  mapM ((forall₂_zipIdx h 0 0).imp fun _ _ => within)

end Agree
end Inquiry
end UaBridge
