import UaBridge.Proofs.Assoc
import UaBridge.Schema.Registry

namespace UaBridge.Registry

theorem extend_empty (g : Registry) : g.extend empty = g := by
  rw [extend, empty, Assoc.merge_empty, Assoc.merge_empty]

theorem empty_extend (g : Registry) : empty.extend g = g := by
  rw [extend, empty, Assoc.empty_merge, Assoc.empty_merge]

theorem extend_assoc (g h k : Registry) : (g.extend h).extend k = g.extend (h.extend k) := by
  simp only [extend, Assoc.merge_assoc]

theorem extend_register (g h : Registry) (d : Definition) :
    g.extend (h.register d) = (g.extend h).register d := by
  simp only [extend, register, Assoc.merge_insert]

theorem extend_registerSubtype (g h : Registry) (child parent : NodeId) :
    g.extend (h.registerSubtype child parent) = (g.extend h).registerSubtype child parent := by
  simp only [extend, registerSubtype, Assoc.merge_insert]

inductive Edit where
  | register (d : Definition)
  | link (child parent : NodeId)
  | extend (edits : List Edit)

mutual

def Edit.apply (g : Registry) : Edit → Registry
  | .register d => g.register d
  | .link child parent => g.registerSubtype child parent
  | .extend edits => g.extend (applyAll .empty edits)
termination_by structural e => e

def applyAll (g : Registry) : List Edit → Registry
  | [] => g
  | e :: edits => applyAll (e.apply g) edits
termination_by structural edits => edits

end

variable {edits more : List Edit}

theorem applyAll_append (g : Registry) :
    applyAll g (edits ++ more) = applyAll (applyAll g edits) more := by
  induction edits generalizing g with
  | nil => rfl
  | cons e edits ih => exact ih _

theorem extend_apply (g h : Registry) (e : Edit) : g.extend (e.apply h) = e.apply (g.extend h) := by
  cases e with
  | register d => exact extend_register g h d
  | link child parent => exact extend_registerSubtype g h child parent
  | extend edits => exact (extend_assoc g h _).symm

theorem extend_applyAll (g h : Registry) (edits : List Edit) :
    g.extend (applyAll h edits) = applyAll (g.extend h) edits := by
  induction edits generalizing h with
  | nil => rfl
  | cons e edits ih => rw [applyAll, ih, extend_apply, applyAll]

/-- To add a registry is to take the edits that have made it, one after the other. Adding is
associative, and the empty registry adds nothing. -/
theorem extend_replays :
    (∀ edits more : List Edit,
      (applyAll empty edits).extend (applyAll empty more) = applyAll empty (edits ++ more)) ∧
    (∀ g h k : Registry, (g.extend h).extend k = g.extend (h.extend k)) ∧
    ∀ g : Registry, g.extend empty = g ∧ empty.extend g = g := by
  refine ⟨fun edits more => ?_, extend_assoc, fun g => ⟨extend_empty g, empty_extend g⟩⟩
  rw [extend_applyAll, extend_empty, applyAll_append]

end UaBridge.Registry
