import Mathlib.Data.List.Forall2
import Mathlib.Data.List.Perm.Basic

namespace Except

variable {ε ε' α β : Type}

theorem ok_bind (a : α) (f : α → Except ε β) : (.ok a >>= f) = f a := rfl

theorem error_bind (e : ε) (f : α → Except ε β) : (.error e >>= f) = .error e := rfl

theorem bind_eq_ok_iff {x : Except ε α} {f : α → Except ε β} {b : β} :
    (x >>= f) = .ok b ↔ ∃ a, x = .ok a ∧ f a = .ok b := by
  cases x with
  | error e => simp [bind, Except.bind]
  | ok a => simp [bind, Except.bind]

theorem map_eq_ok_iff {x : Except ε α} {f : α → β} {b : β} :
    x.map f = .ok b ↔ ∃ a, x = .ok a ∧ f a = b := by
  cases x with
  | error e => simp [Except.map]
  | ok a => simp [Except.map]

theorem map_eq_error_iff {x : Except ε α} {f : α → β} {e : ε} :
    x.map f = .error e ↔ x = .error e := by
  cases x with
  | error e => simp [Except.map]
  | ok a => simp [Except.map]

theorem mapError_eq_ok_iff {x : Except ε α} {f : ε → ε'} {a : α} :
    x.mapError f = .ok a ↔ x = .ok a := by
  cases x with
  | error e => simp [Except.mapError]
  | ok a => simp [Except.mapError]

theorem mapM_eq_ok_iff {f : α → Except ε β} {l : List α} {l' : List β} :
    l.mapM f = .ok l' ↔ List.Forall₂ (fun a b => f a = .ok b) l l' := by
  induction l generalizing l' with
  | nil => simp [pure, Except.pure, eq_comm]
  | cons a l ih =>
    simp only [List.mapM_cons, bind_eq_ok_iff, ih, List.forall₂_cons_left_iff]
    constructor
    · rintro ⟨b, hb, bs, hbs, heq⟩
      cases heq
      exact ⟨b, bs, hb, hbs, rfl⟩
    · rintro ⟨b, bs, hb, hbs, rfl⟩
      exact ⟨b, hb, bs, hbs, rfl⟩

theorem exists_forall₂_iff {R : α → β → Prop} {l : List α} :
    (∃ l', List.Forall₂ R l l') ↔ ∀ a ∈ l, ∃ b, R a b := by
  induction l with
  | nil => simp
  | cons a l ih =>
    rw [List.forall_mem_cons, ← ih]
    simp [List.forall₂_cons_left_iff]

theorem exists_mapM_eq_ok_iff {f : α → Except ε β} {l : List α} :
    (∃ l', l.mapM f = .ok l') ↔ ∀ a ∈ l, ∃ b, f a = .ok b := by
  simp only [mapM_eq_ok_iff, exists_forall₂_iff]

theorem mapM_map_eq_ok {γ : Type} {f : β → Except ε γ} {g : α → β} {h : α → γ} {l : List α}
    (hl : ∀ a ∈ l, f (g a) = .ok (h a)) : (l.map g).mapM f = .ok (l.map h) := by
  rw [mapM_eq_ok_iff, List.forall₂_map_left_iff, List.forall₂_map_right_iff, List.forall₂_same]
  exact hl

theorem exists_mem_of_mapM_eq_ok {f : α → Except ε β} {l : List α} {l' : List β}
    (h : l.mapM f = .ok l') : ∀ b ∈ l', ∃ a ∈ l, f a = .ok b := by
  rw [mapM_eq_ok_iff] at h
  induction h with
  | nil => simp
  | cons hab _ ih =>
    rw [List.forall_mem_cons]
    refine ⟨⟨_, List.mem_cons_self, hab⟩, fun b hb => ?_⟩
    obtain ⟨a, ha, hb⟩ := ih b hb
    exact ⟨a, List.mem_cons_of_mem _ ha, hb⟩

theorem filterMap_of_mapM_eq_ok {γ : Type} {f : α → Except ε β} {g : α → Option γ} {k : β → γ}
    {l : List α} {l' : List β} (h : l.mapM f = .ok l')
    (hg : ∀ a ∈ l, ∀ b, f a = .ok b → g a = some (k b)) : l.filterMap g = l'.map k := by
  rw [mapM_eq_ok_iff] at h
  induction h with
  | nil => rfl
  | cons hab _ ih =>
    rw [List.forall_mem_cons] at hg
    rw [List.filterMap_cons_some (hg.1 _ hab), List.map_cons, ih hg.2]

theorem foldlM_map {γ : Type} {f : α → Except ε γ} {g : β → γ → β} {l : List α} {b : β} :
    (l.foldlM (fun b a => (f a).map (g b)) b) = (l.mapM f).map (·.foldl g b) := by
  induction l generalizing b with
  | nil => rfl
  | cons a l ih =>
    rw [List.foldlM_cons, List.mapM_cons]
    cases f a with
    | error e => rfl
    | ok c =>
      rw [Except.map, ok_bind, ok_bind, ih]
      cases l.mapM f <;> rfl

theorem foldlM_eq_ok {f : β → α → Except ε β} {g : β → α → β} {l : List α}
    (hl : ∀ a ∈ l, ∀ b, f b a = .ok (g b a)) (b : β) : l.foldlM f b = .ok (l.foldl g b) := by
  induction l generalizing b with
  | nil => rfl
  | cons a l ih =>
    rw [List.forall_mem_cons] at hl
    rw [List.foldlM_cons, hl.1 b]
    exact ih hl.2 (g b a)

theorem exists_step_of_foldlM_eq_ok {f : β → α → Except ε β} {l : List α} {b b' : β}
    (h : l.foldlM f b = .ok b') : ∀ a ∈ l, ∃ c c', f c a = .ok c' := by
  induction l generalizing b with
  | nil => simp
  | cons a l ih =>
    rw [List.foldlM_cons, bind_eq_ok_iff] at h
    obtain ⟨c, hc, h⟩ := h
    exact List.forall_mem_cons.2 ⟨⟨b, c, hc⟩, ih h⟩

theorem foldlM_keeps {γ : Type} (g : β → γ) {f : β → α → Except ε β}
    (hf : ∀ b a b', f b a = .ok b' → g b' = g b) {l : List α} {b b' : β}
    (h : l.foldlM f b = .ok b') : g b' = g b := by
  induction l generalizing b with
  | nil => cases h; rfl
  | cons a l ih =>
    rw [List.foldlM_cons, bind_eq_ok_iff] at h
    obtain ⟨c, hc, h⟩ := h
    rw [ih h, hf b a c hc]

theorem exists_first_of_mapM_eq_error {f : α → Except ε β} {l : List α} {e : ε}
    (h : l.mapM f = .error e) :
    ∃ before a after, l = before ++ a :: after ∧ (∀ x ∈ before, ∃ b, f x = .ok b) ∧
      f a = .error e := by
  induction l with
  | nil => cases h
  | cons a l ih =>
    rw [List.mapM_cons] at h
    cases ha : f a with
    | error e' =>
      rw [ha] at h
      cases h
      exact ⟨[], a, l, rfl, by simp, ha⟩
    | ok b =>
      rw [ha] at h
      have hl : l.mapM f = .error e := by
        cases hl : l.mapM f with
        | error e' => rw [hl] at h; cases h; rfl
        | ok bs => rw [hl] at h; cases h
      obtain ⟨before, x, after, rfl, hbefore, hx⟩ := ih hl
      exact ⟨a :: before, x, after, rfl, List.forall_mem_cons.2 ⟨⟨b, ha⟩, hbefore⟩, hx⟩

theorem mapM_zipIdx_eq_ok_iff {f : α → Except ε β} {l : List α} {l' : List β} {start : Nat}
    (mark : ε → Nat → ε') :
    ((l.zipIdx start).mapM fun p => (f p.1).mapError (mark · p.2)) = .ok l' ↔
      List.Forall₂ (fun a b => f a = .ok b) l l' := by
  rw [mapM_eq_ok_iff]
  simp only [mapError_eq_ok_iff]
  have h := List.forall₂_map_left_iff (f := Prod.fst) (R := fun a b => f a = .ok b)
    (l := l.zipIdx start) (u := l')
  rw [List.zipIdx_map_fst] at h
  exact h.symm

def FailsOnly (P : ε → Prop) (x : Except ε α) : Prop := ∀ e, x = .error e → P e

namespace FailsOnly
variable {P : ε → Prop} {P' : ε' → Prop} {x : Except ε α}

theorem of_eq_ok {a : α} (h : x = .ok a) : x.FailsOnly P := by
  intro e he
  rw [h] at he
  cases he

theorem error {e : ε} (h : P e) : (Except.error e : Except ε α).FailsOnly P := by
  intro e' he'
  cases he'
  exact h

theorem imp {Q : ε → Prop} (hx : x.FailsOnly P) (h : ∀ e, P e → Q e) : x.FailsOnly Q :=
  fun e he => h e (hx e he)

theorem bind {f : α → Except ε β} (hx : x.FailsOnly P) (hf : ∀ a, x = .ok a → (f a).FailsOnly P) :
    (x >>= f).FailsOnly P := by
  cases x with
  | error e => exact fun e' he' => hx e' (by cases he'; rfl)
  | ok a => exact hf a rfl

theorem map {f : α → β} (hx : x.FailsOnly P) : (x.map f).FailsOnly P := by
  cases x with
  | error e => exact error (hx e rfl)
  | ok a => exact of_eq_ok rfl

theorem mapError {f : ε → ε'} (hx : x.FailsOnly P) (hf : ∀ e, P e → P' (f e)) :
    (x.mapError f).FailsOnly P' := by
  cases x with
  | error e =>
    intro e' he'
    cases he'
    exact hf e (hx e rfl)
  | ok a => exact of_eq_ok rfl

theorem mapM {f : α → Except ε β} {l : List α} (h : ∀ a ∈ l, (f a).FailsOnly P) :
    (l.mapM f).FailsOnly P := by
  induction l with
  | nil => exact of_eq_ok rfl
  | cons a l ih =>
    rw [List.forall_mem_cons] at h
    rw [List.mapM_cons]
    exact h.1.bind fun b _ => (ih h.2).bind fun bs _ => of_eq_ok rfl

theorem foldlM {f : β → α → Except ε β} {l : List α} {b : β}
    (h : ∀ b a, (f b a).FailsOnly P) : (l.foldlM f b).FailsOnly P := by
  induction l generalizing b with
  | nil => exact of_eq_ok rfl
  | cons a l ih =>
    rw [List.foldlM_cons]
    exact (h b a).bind fun b' _ => ih

end FailsOnly

/-- Both computations succeed, with results related by `R`, or both fail, for reasons related
by `E`. -/
inductive Agree (E : ε → ε' → Prop) (R : α → β → Prop) : Except ε α → Except ε' β → Prop
  | ok {a b} : R a b → Agree E R (.ok a) (.ok b)
  | error {e e'} : E e e' → Agree E R (.error e) (.error e')

namespace Agree
variable {γ δ ε₁ ε₁' : Type} {E : ε → ε' → Prop} {E' : ε₁ → ε₁' → Prop} {R R' : α → β → Prop}
  {S : γ → δ → Prop} {x : Except ε α} {y : Except ε' β}

theorem refl {E : ε → ε → Prop} (hE : ∀ e, E e e) (x : Except ε α) : x.Agree E Eq x := by
  cases x with
  | ok a => exact .ok rfl
  | error e => exact .error (hE e)

theorem eq_ok {y : Except ε' α} {a : α} (h : x.Agree E Eq y) (hx : x = .ok a) : y = .ok a := by
  cases h with
  | ok hab => exact hab ▸ congrArg _ (Except.ok.inj hx)
  | error => cases hx

theorem imp (h : x.Agree E R y) (hR : ∀ a b, x = .ok a → y = .ok b → R a b → R' a b) :
    x.Agree E R' y := by
  cases h with
  | ok hab => exact .ok (hR _ _ rfl rfl hab)
  | error he => exact .error he

theorem bind {f : α → Except ε γ} {g : β → Except ε' δ} (h : x.Agree E R y)
    (hf : ∀ a b, x = .ok a → y = .ok b → R a b → (f a).Agree E S (g b)) :
    (x >>= f).Agree E S (y >>= g) := by
  cases h with
  | ok hab => exact hf _ _ rfl rfl hab
  | error he => exact .error he

theorem mapError {f : ε → ε₁} {g : ε' → ε₁'} (h : x.Agree E R y)
    (hf : ∀ e e', E e e' → E' (f e) (g e')) : (x.mapError f).Agree E' R (y.mapError g) := by
  cases h with
  | ok hab => exact .ok hab
  | error he => exact .error (hf _ _ he)

theorem mapM {f : α → Except ε γ} {g : β → Except ε' δ} {l : List α} {m : List β}
    (h : List.Forall₂ (fun a b => (f a).Agree E S (g b)) l m) :
    (l.mapM f).Agree E (List.Forall₂ S) (m.mapM g) := by
  induction h with
  | nil => exact .ok .nil
  | cons hab _ ih =>
    rw [List.mapM_cons, List.mapM_cons]
    exact hab.bind fun _ _ _ _ hcd => ih.bind fun _ _ _ _ hrest => .ok (.cons hcd hrest)

theorem map {f : α → γ} {g : β → δ} (h : x.Agree E R y) (hf : ∀ a b, R a b → S (f a) (g b)) :
    (x.map f).Agree E S (y.map g) := by
  cases h with
  | ok hab => exact .ok (hf _ _ hab)
  | error he => exact .error he

theorem mapM_perm {f : α → Except ε β} {l m : List α} (h : l.Perm m) :
    (l.mapM f).Agree (fun _ _ => True) List.Perm (m.mapM f) := by
  have hsame : (∃ l', l.mapM f = .ok l') ↔ ∃ m', m.mapM f = .ok m' := by
    rw [exists_mapM_eq_ok_iff, exists_mapM_eq_ok_iff]
    exact forall_congr' fun a => imp_congr_left h.mem_iff
  cases hl : l.mapM f with
  | ok l' =>
    have hcomp : Relation.Comp List.Perm (List.Forall₂ fun a b => f a = .ok b) m l' :=
      ⟨l, h.symm, mapM_eq_ok_iff.1 hl⟩
    rw [← List.forall₂_comp_perm_eq_perm_comp_forall₂] at hcomp
    obtain ⟨m', hm, hperm⟩ := hcomp
    rw [mapM_eq_ok_iff.2 hm]
    exact .ok hperm.symm
  | error e =>
    cases hm : m.mapM f with
    | ok m' =>
      obtain ⟨l', hl'⟩ := hsame.2 ⟨m', hm⟩
      cases hl.symm.trans hl'
    | error e' => exact .error trivial

end Agree

/-- The outcome `y`, or in its place a failure that has the property `P`. -/
def Cut (P : ε → Prop) (x y : Except ε α) : Prop := x = y ∨ ∃ e, x = .error e ∧ P e

namespace Cut
variable {P Q : ε → Prop} {P' : ε' → Prop} {x y : Except ε α}

theorem refl (x : Except ε α) : x.Cut P x := .inl rfl

theorem error {e : ε} (h : P e) (y : Except ε α) : (Except.error e).Cut P y := .inr ⟨e, rfl, h⟩

theorem imp (h : x.Cut P y) (hPQ : ∀ e, P e → Q e) : x.Cut Q y := by
  obtain rfl | ⟨e, rfl, he⟩ := h
  · exact .refl x
  · exact .error (hPQ e he) y

theorem eq_of_forall_not (h : x.Cut P y) (hP : ∀ e, ¬P e) : x = y := by
  obtain heq | ⟨e, -, he⟩ := h
  · exact heq
  · exact absurd he (hP e)

theorem bind {f g : α → Except ε β} (h : x.Cut P y) (hf : ∀ a, x = .ok a → (f a).Cut P (g a)) :
    (x >>= f).Cut P (y >>= g) := by
  obtain rfl | ⟨e, rfl, he⟩ := h
  · cases x with
    | error e => exact .refl _
    | ok a => exact hf a rfl
  · exact .error he _

theorem mapError {f : ε → ε'} (h : x.Cut P y) (hf : ∀ e, P e → P' (f e)) :
    (x.mapError f).Cut P' (y.mapError f) := by
  obtain rfl | ⟨e, rfl, he⟩ := h
  · exact .refl _
  · exact .error (hf e he) _

theorem mapM {f g : α → Except ε β} {l : List α} (h : ∀ a ∈ l, (f a).Cut P (g a)) :
    (l.mapM f).Cut P (l.mapM g) := by
  induction l with
  | nil => exact .refl _
  | cons a l ih =>
    rw [List.forall_mem_cons] at h
    rw [List.mapM_cons, List.mapM_cons]
    exact h.1.bind fun b _ => (ih h.2).bind fun bs _ => .refl _

end Cut
end Except
