import UaBridge.Schema.Inquiry

/-!
The schema of a type: its own fields and then those of its ancestors, nearest first, namespace 0
left out. A name stands for the first field that has it. Questions without an answer contribute no
fields, so a schema is defined for every type.
-/

namespace UaBridge

theorem pairwise_mergeSort_key {α : Type} (key : α → Nat) (l : List α) :
    (l.mergeSort fun a b => decide (key a ≤ key b)).Pairwise fun a b => key a ≤ key b := by
  refine (List.pairwise_mergeSort ?_ ?_ l).imp of_decide_eq_true
  · intro a b c hab hbc
    simp only [decide_eq_true_eq] at hab hbc ⊢
    exact Nat.le_trans hab hbc
  · intro a b
    simpa using Nat.le_total _ _

abbrev Schema := List Field

namespace Schema
variable {β : Type} {s t : Schema} {name other : String}

def slot? (s : Schema) (name : String) : Option Field := s.find? (·.name == name)

def place (s : Schema) (name : String) : Nat := s.findIdx (·.name == name)

def arrange (s : Schema) (fields : List (String × β)) : List (String × β) :=
  fields.mergeSort fun a b => decide (s.place a.1 ≤ s.place b.1)

/-- Every mandatory field is the one that some name stands for. -/
def Filled (s : Schema) (names : List String) : Prop :=
  ∀ i field, s[i]? = some field → field.optional = false → ∃ n ∈ names, s.place n = i

theorem getElem?_place (s : Schema) (name : String) : s[s.place name]? = s.slot? name :=
  List.find?_eq_getElem?_findIdx.symm

theorem name_of_slot? {field : Field} (h : s.slot? name = some field) : field.name = name := by
  simpa using List.find?_some h

theorem place_lt_iff : s.place name < s.length ↔ (s.slot? name).isSome := by
  simp [place, slot?, List.findIdx_lt_length]

theorem slot?_append (s t : Schema) (name : String) :
    (s ++ t).slot? name = (s.slot? name).or (t.slot? name) :=
  List.find?_append

theorem slot?_append_of_isSome (h : (s.slot? name).isSome) :
    (s ++ t).slot? name = s.slot? name := by
  rw [slot?_append, Option.or_of_isSome h]

theorem slot?_append_of_eq_none (h : s.slot? name = none) :
    (s ++ t).slot? name = t.slot? name := by
  rw [slot?_append, h, Option.none_or]

theorem place_append_of_isSome (h : (s.slot? name).isSome) :
    (s ++ t).place name = s.place name := by
  have hlt := place_lt_iff.2 h
  simp only [place] at hlt ⊢
  rw [List.findIdx_append, if_pos hlt]

theorem place_append_of_eq_none (h : s.slot? name = none) :
    (s ++ t).place name = s.length + t.place name := by
  have hlt : ¬s.place name < s.length := by rw [place_lt_iff, h]; simp
  simp only [place] at hlt ⊢
  rw [List.findIdx_append, if_neg hlt, Nat.add_comm]

theorem place_injective (h : (s.slot? name).isSome) (heq : s.place name = s.place other) :
    name = other := by
  obtain ⟨field, hfield⟩ := Option.isSome_iff_exists.1 h
  have hother : s.slot? other = some field := by rw [← getElem?_place, ← heq, getElem?_place, hfield]
  rw [← name_of_slot? hfield, ← name_of_slot? hother]

theorem arrange_perm (s : Schema) (fields : List (String × β)) : (s.arrange fields).Perm fields :=
  List.mergeSort_perm fields _

theorem mem_arrange {s : Schema} {fields : List (String × β)} {f : String × β} :
    f ∈ s.arrange fields ↔ f ∈ fields :=
  (s.arrange_perm fields).mem_iff

theorem pairwise_arrange (s : Schema) (fields : List (String × β)) :
    (s.arrange fields).Pairwise fun a b => s.place a.1 ≤ s.place b.1 :=
  pairwise_mergeSort_key (fun f => s.place f.1) fields

theorem arrange_of_pairwise {fields : List (String × β)}
    (h : fields.Pairwise fun a b => s.place a.1 ≤ s.place b.1) : s.arrange fields = fields :=
  List.mergeSort_of_pairwise (h.imp fun hab => by simpa using hab)

@[simp] theorem arrange_arrange (s : Schema) (fields : List (String × β)) :
    s.arrange (s.arrange fields) = s.arrange fields :=
  arrange_of_pairwise (s.pairwise_arrange fields)

theorem map_fst_arrange_perm (s : Schema) (fields : List (String × β)) :
    ((s.arrange fields).map (·.1)).Perm (fields.map (·.1)) :=
  (s.arrange_perm fields).map _

theorem arrange_of_map_fst_eq {γ : Type} {fields : List (String × β)}
    {fields' : List (String × γ)} (h : (s.arrange fields).map (·.1) = fields'.map (·.1)) :
    s.arrange fields' = fields' := by
  have hsorted : ((s.arrange fields).map (·.1)).Pairwise fun m n => s.place m ≤ s.place n :=
    List.pairwise_map.2 (s.pairwise_arrange fields)
  rw [h, List.pairwise_map] at hsorted
  exact arrange_of_pairwise hsorted

theorem map_arrange {γ : Type} (s : Schema) (g : String × β → String × γ) (hg : ∀ f, (g f).1 = f.1)
    (fields : List (String × β)) : (s.arrange fields).map g = s.arrange (fields.map g) := by
  apply List.map_mergeSort
  intro a _ b _
  rw [hg, hg]

theorem Filled.perm {names names' : List String} (h : s.Filled names) (hp : names.Perm names') :
    s.Filled names' := by
  intro i field hi hmandatory
  obtain ⟨n, hn, hplace⟩ := h i field hi hmandatory
  exact ⟨n, hp.subset hn, hplace⟩

end Schema

namespace Resolver
variable (r : Resolver)

def fieldsOf (id : NodeId) : List Field :=
  match r.definition id with
  | .ok d => d.fields
  | .error _ => []

def ancestors (type : NodeId) : List NodeId :=
  match r.supertypes type with
  | .ok chain => chain.filter fun a => !a.isStandard
  | .error _ => []

def schema (type : NodeId) : Schema := (type :: r.ancestors type).flatMap r.fieldsOf

theorem fieldsOf_of_definition {r : Resolver} {id : NodeId} {d : Definition}
    (h : r.definition id = .ok d) : r.fieldsOf id = d.fields := by
  simp [fieldsOf, h]

theorem ancestors_of_supertypes {r : Resolver} {type : NodeId} {chain : List NodeId}
    (h : r.supertypes type = .ok chain) :
    r.ancestors type = chain.filter fun a => !a.isStandard := by
  simp [ancestors, h]

theorem schema_of_definition {r : Resolver} {type : NodeId} {d : Definition}
    (h : r.definition type = .ok d) :
    r.schema type = d.fields ++ (r.ancestors type).flatMap r.fieldsOf := by
  simp [schema, fieldsOf_of_definition h]

end Resolver
end UaBridge
