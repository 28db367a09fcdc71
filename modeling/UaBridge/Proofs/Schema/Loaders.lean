import UaBridge.Proofs.Schema.NodeSet
import UaBridge.Proofs.Schema.TypeDocument

namespace UaBridge

/-- The forms in which a type system can be written are read alike, also where an id is declared or
linked more than once. -/
theorem TypeSystem.loaders_agree (t : TypeSystem) (h : t.IsLegible) :
    (NodeSet.build t.toElement).map (·.1) = .ok t.registry ∧
      t.toDocument.build = .ok t.registry :=
  ⟨build_toElement h, build_toDocument h⟩

namespace Valves

def valve : NodeId := .string 1 "Valve"

def gate : NodeId := .numeric 1 7

def types : TypeSystem where
  types :=
    [⟨⟨valve, "1:Valve", .record, []⟩, none⟩,
      ⟨⟨valve, "Valve", .record,
        [⟨"positions", Builtin.int16.typeId, true, false⟩, ⟨"next", valve, false, true⟩]⟩,
        some gate⟩,
      ⟨⟨gate, "Double", .union, [⟨"", .null, false, false⟩]⟩, none⟩]
  links := [(gate, .unionType), (⟨2, .bytes [0, 255]⟩, valve)]

end Valves

theorem TypeSystem.loaders_agree_valves :
    Valves.types.IsLegible ∧
      (NodeSet.build Valves.types.toElement).map (·.1) = .ok Valves.types.registry ∧
      Valves.types.toDocument.build = .ok Valves.types.registry := by
  have h : Valves.types.IsLegible := by decide
  exact ⟨h, loaders_agree Valves.types h⟩

end UaBridge
