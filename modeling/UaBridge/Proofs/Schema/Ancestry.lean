import UaBridge.Bridge.Binding
import UaBridge.Proofs.Except
import UaBridge.Proofs.Schema.Inquiry
import UaBridge.Proofs.Schema.Layout

namespace UaBridge

variable {α : Type}

theorem firstRepeatAfter?_eq_none_iff [DecidableEq α] {seen l : List α} :
    firstRepeatAfter? seen l = none ↔ l.Nodup ∧ ∀ a ∈ l, a ∉ seen := by
  induction l generalizing seen with
  | nil => simp [firstRepeatAfter?]
  | cons a l ih =>
    by_cases ha : a ∈ seen
    · simp [firstRepeatAfter?, ha]
    · simp only [firstRepeatAfter?, ha, if_false, ih, List.nodup_cons, List.mem_cons]
      grind

theorem firstRepeat?_eq_none_iff [DecidableEq α] {l : List α} :
    firstRepeat? l = none ↔ l.Nodup := by
  simp [firstRepeat?, firstRepeatAfter?_eq_none_iff]

namespace Resolver
variable (r : Resolver)

def HasChain (type : NodeId) (chain : List NodeId) : Prop :=
  r.supertypes type = .ok chain ∧ (type :: chain).Nodup

def Defines (id : NodeId) : Prop := ∃ d, r.definition id = .ok d

/-- What the values of a type are, by the type itself in namespace 0 and else by its last
supertype. -/
inductive HasBase : NodeId → BaseKind → Prop
  | standard {type kind} : type.isStandard → BaseKind.of? type = some kind → HasBase type kind
  | derived {type chain base kind} : type.isStandard = false → r.HasChain type chain →
      chain.getLast? = some base → BaseKind.of? base = some kind → HasBase type kind

inductive Inherits (name : String) : List NodeId → Prop
  | here {a chain d} : a.isStandard = false → r.definition a = .ok d →
      (Schema.slot? d.fields name).isSome → Inherits name (a :: chain)
  | standard {a chain} : a.isStandard → Inherits name chain → Inherits name (a :: chain)
  | further {a chain d} : a.isStandard = false → r.definition a = .ok d →
      Schema.slot? d.fields name = none → Inherits name chain → Inherits name (a :: chain)

/-- The names can be those of the fields of a value of type `type`, whose definition is `d`. -/
inductive Fits (type : NodeId) (d : Definition) (names : List String) : Prop
  | record {chain} : d.shape = .record → names.Nodup → r.HasChain type chain →
      (∀ a ∈ chain, a.isStandard = false → r.Defines a) →
      (∀ n ∈ names, ((r.schema type).slot? n).isSome) → (r.schema type).Filled names →
      Fits type d names
  | empty : d.shape = .union → names = [] → Fits type d names
  | declared {name} : d.shape = .union → names = [name] →
      (Schema.slot? d.fields name).isSome → Fits type d names
  | inherited {name chain} : d.shape = .union → names = [name] →
      Schema.slot? d.fields name = none → r.HasChain type chain → r.Inherits name chain →
      Fits type d names

end Resolver

section lookups
variable {r : Resolver} {type : NodeId}

theorem definitionOf_eval_eq_ok_iff {d : Definition} :
    (definitionOf type).eval r = .ok d ↔ r.definition type = .ok d := by
  rw [definitionOf, Inquiry.eval_askDefinition, Except.mapError_eq_ok_iff]

theorem supertypesOf_eval_eq_ok_iff {chain : List NodeId} :
    (supertypesOf type).eval r = .ok chain ↔ r.HasChain type chain := by
  simp only [supertypesOf, Inquiry.eval_bind, Inquiry.eval_askSupertypes, Except.bind_eq_ok_iff,
    Except.mapError_eq_ok_iff, Resolver.HasChain, ← firstRepeat?_eq_none_iff]
  constructor
  · rintro ⟨found, hfound, h⟩
    cases hrepeat : firstRepeat? (type :: found) with
    | none =>
      simp only [hrepeat, Inquiry.eval_done, Except.ok.injEq] at h
      subst h
      exact ⟨hfound, hrepeat⟩
    | some repeated => simp [hrepeat] at h
  · rintro ⟨hfound, hrepeat⟩
    exact ⟨chain, hfound, by simp [hrepeat]⟩

theorem baseKindOf_eval_eq_ok_iff {kind : BaseKind} :
    (baseKindOf type).eval r = .ok kind ↔ r.HasBase type kind := by
  constructor
  · intro h
    unfold baseKindOf at h
    split at h
    next hstandard =>
      split at h
      next found hfound =>
        simp only [Inquiry.eval_done, Except.ok.injEq] at h
        exact .standard hstandard (h ▸ hfound)
      next => simp at h
    next hstandard =>
      simp only [Inquiry.eval_bind, Except.bind_eq_ok_iff, supertypesOf_eval_eq_ok_iff] at h
      obtain ⟨chain, hchain, h⟩ := h
      split at h
      next => simp at h
      next base hbase =>
        split at h
        next found hfound =>
          simp only [Inquiry.eval_done, Except.ok.injEq] at h
          exact .derived (by simpa using hstandard) hchain hbase (h ▸ hfound)
        next => simp at h
  · intro h
    cases h with
    | standard hstandard hkind => simp [baseKindOf, hstandard, hkind]
    | derived hstandard hchain hbase hkind =>
      simp only [baseKindOf, hstandard, Bool.false_eq_true, if_false, Inquiry.eval_bind,
        supertypesOf_eval_eq_ok_iff.2 hchain]
      simp [bind, Except.bind, hbase, hkind]

theorem Resolver.flatMap_fieldsOf {ids : List NodeId} {defs : List Definition}
    (h : List.Forall₂ (fun a d => r.definition a = .ok d) ids defs) :
    ids.flatMap r.fieldsOf = defs.flatMap (·.fields) := by
  induction h with
  | nil => rfl
  | cons hd _ ih => rw [List.flatMap_cons, List.flatMap_cons, ih, fieldsOf_of_definition hd]

theorem Resolver.HasBase.unique {kind kind' : BaseKind} (h : r.HasBase type kind)
    (h' : r.HasBase type kind') : kind = kind' := by
  rw [← baseKindOf_eval_eq_ok_iff] at h h'
  exact Except.ok.inj (h.symm.trans h')

end lookups

end UaBridge
