import UaBridge.Proofs.NodeId.Text
import UaBridge.Schema.LoadError
import UaBridge.Schema.Registry

namespace UaBridge

structure TypeSystem.Declaration where
  definition : Definition
  parent : Option NodeId

/-- Declared types, and behind them links from children to parents. -/
structure TypeSystem where
  types : List TypeSystem.Declaration
  links : List (NodeId × NodeId)

namespace TypeSystem

def Declaration.register (r : Registry) (t : Declaration) : Registry :=
  match t.parent with
  | none => r.register t.definition
  | some parent => (r.register t.definition).registerSubtype t.definition.id parent

def link (r : Registry) (l : NodeId × NodeId) : Registry := r.registerSubtype l.1 l.2

def registry (t : TypeSystem) : Registry :=
  t.links.foldl link (t.types.foldl Declaration.register .empty)

/-- The text of each id is read as that id, and no name has the look of such a text. -/
structure Declaration.IsLegible (t : Declaration) : Prop where
  name : '=' ∉ t.definition.name.toList
  id : t.definition.id.isLegible = true
  parent : ∀ parent ∈ t.parent, parent.isLegible = true
  fields : ∀ f ∈ t.definition.fields, f.type.isLegible = true

instance (t : Declaration) : Decidable t.IsLegible :=
  decidable_of_iff
    ('=' ∉ t.definition.name.toList ∧ t.definition.id.isLegible = true ∧
      (∀ parent ∈ t.parent, parent.isLegible = true) ∧
      ∀ f ∈ t.definition.fields, f.type.isLegible = true)
    ⟨fun ⟨name, id, parent, fields⟩ => ⟨name, id, parent, fields⟩,
      fun ⟨name, id, parent, fields⟩ => ⟨name, id, parent, fields⟩⟩

structure IsLegible (t : TypeSystem) : Prop where
  types : ∀ d ∈ t.types, d.IsLegible
  links : ∀ l ∈ t.links, l.1.isLegible = true ∧ l.2.isLegible = true

instance (t : TypeSystem) : Decidable t.IsLegible :=
  decidable_of_iff
    ((∀ d ∈ t.types, d.IsLegible) ∧ ∀ l ∈ t.links, l.1.isLegible = true ∧ l.2.isLegible = true)
    ⟨fun ⟨types, links⟩ => ⟨types, links⟩, fun ⟨types, links⟩ => ⟨types, links⟩⟩

end TypeSystem

theorem NodeId.ofDocument_text {id : NodeId} (h : id.isLegible = true) :
    ofDocument id.text = .ok id := by
  rw [ofDocument, parse_text h]
  rfl

end UaBridge
