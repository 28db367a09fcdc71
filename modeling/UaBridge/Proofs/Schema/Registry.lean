import UaBridge.Proofs.Assoc
import UaBridge.Schema.Registry

namespace UaBridge.Registry

variable {g : Registry} {id : NodeId} {chain : List NodeId}

def ids (g : Registry) : List NodeId := g.definitions.keys ++ g.parents.keys

theorem length_ids (g : Registry) : g.ids.length = g.known := by
  simp [ids, known, Assoc.keys, Assoc.size]

theorem contains_of_parent? {parent : NodeId} (h : g.parent? id = some parent) :
    g.contains id = true := by
  rw [contains, Bool.or_eq_true]
  cases hparent : g.parents.find? id with
  | some p => exact .inr (Option.isSome_of_eq_some hparent)
  | none =>
    simp only [parent?, hparent, Option.orElse_none, Option.map_eq_some_iff] at h
    obtain ⟨d, hd, -⟩ := h
    exact .inl (Option.isSome_of_eq_some hd)

theorem mem_ids_of_contains (h : g.contains id = true) : id ∈ g.ids := by
  rw [contains, Bool.or_eq_true] at h
  rw [ids, List.mem_append]
  refine h.imp ?_ ?_
  all_goals
    intro hfound
    obtain ⟨entry, hentry⟩ := Option.isSome_iff_exists.1 hfound
    exact Assoc.mem_keys_of_find? hentry

theorem mem_ids_of_supertypes (hid : id.isStandard = false) (h : g.supertypes id = .ok chain) :
    id ∈ g.ids := by
  cases hparent : g.parent? id with
  | some parent => exact mem_ids_of_contains (contains_of_parent? hparent)
  | none => simp [supertypes, hid, climb, hparent] at h

end UaBridge.Registry
