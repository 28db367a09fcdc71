import UaBridge.Plant.Datum
import UaBridge.Proofs.Except

namespace UaBridge.Plant.Record

variable {r r' : Record} {name : String} {value : Datum} {type : Address}
  {fields : List (String × Datum)}

theorem isSome_field?_iff : (r.field? name).isSome ↔ name ∈ r.fields.map (·.1) := by
  simp [field?]

theorem push_eq_ok_iff :
    r.push name value = .ok r' ↔
      name ∉ r.fields.map (·.1) ∧ { r with fields := r.fields ++ [(name, value)] } = r' := by
  rw [push, ← isSome_field?_iff]
  cases (r.field? name).isSome <;> simp

theorem foldlM_push_eq_ok_iff :
    fields.foldlM (fun r f => r.push f.1 f.2) r = .ok r' ↔
      (fields.map (·.1)).Nodup ∧ (∀ n ∈ fields.map (·.1), n ∉ r.fields.map (·.1)) ∧
        { r with fields := r.fields ++ fields } = r' := by
  induction fields generalizing r with
  | nil => simp [pure, Except.pure]
  | cons f fields ih =>
    simp only [List.foldlM_cons, Except.bind_eq_ok_iff, push_eq_ok_iff, ih]
    constructor
    · rintro ⟨_, ⟨hf, rfl⟩, hnodup, hfresh, rfl⟩
      simp only [List.map_append, List.map_cons, List.map_nil, List.mem_append,
        List.mem_singleton] at hfresh
      refine ⟨?_, ?_, by simp⟩
      · exact List.nodup_cons.2 ⟨fun h => hfresh _ h (.inr rfl), hnodup⟩
      · exact List.forall_mem_cons.2 ⟨hf, fun n hn h => hfresh n hn (.inl h)⟩
    · rintro ⟨hnodup, hfresh, rfl⟩
      rw [List.map_cons, List.nodup_cons] at hnodup
      rw [List.map_cons, List.forall_mem_cons] at hfresh
      refine ⟨_, ⟨hfresh.1, rfl⟩, hnodup.2, ?_, by simp⟩
      intro n hn h
      simp only [List.map_append, List.map_cons, List.map_nil, List.mem_append,
        List.mem_singleton] at h
      cases h with
      | inl h => exact hfresh.2 n hn h
      | inr h => exact hnodup.1 (h ▸ hn)

theorem ofFields_eq_ok_iff :
    ofFields type fields = .ok r ↔ (fields.map (·.1)).Nodup ∧ ⟨type, fields⟩ = r := by
  simp [ofFields, foldlM_push_eq_ok_iff, empty]

end UaBridge.Plant.Record
