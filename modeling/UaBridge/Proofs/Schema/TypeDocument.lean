import UaBridge.Proofs.Assoc
import UaBridge.Proofs.Except
import UaBridge.Proofs.Schema.TypeSystem
import UaBridge.Schema.TypeDocument

namespace UaBridge
namespace TypeDocument

def Names.ArePlain (n : Names) : Prop := ∀ name, n.contains name = true → '=' ∉ name.toList

namespace Names

theorem ArePlain.foldl_insert {n : Names} (hn : n.ArePlain) {l : List (String × NodeId)}
    (hl : ∀ e ∈ l, '=' ∉ e.1.toList) : ArePlain (l.foldl (fun n e => n.insert e.1 e.2) n) := by
  induction l generalizing n with
  | nil => exact hn
  | cons e l ih =>
    rw [List.forall_mem_cons] at hl
    refine ih (fun name hname => ?_) hl.2
    obtain rfl | hname := Assoc.contains_insert_iff.1 hname
    · exact hl.1
    · exact hn name hname

theorem arePlain_wellKnown : ArePlain (.ofList wellKnown) := by
  have hempty : ArePlain .empty := by
    intro name hname
    cases hname
  exact hempty.foldl_insert (by decide)

theorem resolve_text {n : Names} (hn : n.ArePlain) {id : NodeId} (h : id.isLegible = true) :
    n.resolve id.text = .ok id := by
  -- The text has an equals sign: it is looked up in vain, and then read as a node id.
  have hmem := id.separator_mem_text
  have hnone : n.find? id.text = none := by
    rw [← Assoc.contains_eq_false_iff, ← Bool.not_eq_true]
    exact fun hname => hn _ hname hmem
  rw [resolve]
  simp only [NodeId.trimmed_text h, hnone]
  rw [if_pos (List.contains_iff_mem.2 hmem), NodeId.ofDocument_text h]

end Names
end TypeDocument

namespace TypeSystem
open TypeDocument

def fieldEntry (f : Field) : FieldEntry := ⟨f.name, f.type.text, f.isArray, f.optional⟩

def Declaration.entry (t : Declaration) : TypeEntry :=
  ⟨t.definition.id.text, t.definition.name, t.parent.map NodeId.text, t.definition.isUnion,
    t.definition.fields.map fieldEntry⟩

def linkEntry (l : NodeId × NodeId) : LinkEntry := ⟨l.1.text, l.2.text⟩

def toDocument (t : TypeSystem) : TypeDocument :=
  ⟨t.types.map Declaration.entry, t.links.map linkEntry⟩

variable {n : Names} {t : TypeSystem} {d : Declaration}

theorem toField_fieldEntry (hn : n.ArePlain) {f : Field} (h : f.type.isLegible = true) :
    FieldEntry.toField n (fieldEntry f) = .ok f := by
  rw [FieldEntry.toField, fieldEntry, Names.resolve_text hn h]
  rfl

theorem addLink_linkEntry (hn : n.ArePlain) {l : NodeId × NodeId}
    (h : l.1.isLegible = true ∧ l.2.isLegible = true) (r : Registry) :
    addLink n r (linkEntry l) = .ok (link r l) := by
  rw [addLink, linkEntry, Names.resolve_text hn h.1, Names.resolve_text hn h.2]
  rfl

theorem addType_entry (hn : n.ArePlain) (h : d.IsLegible) (r : Registry) :
    addType n r d.entry = .ok (d.register r) := by
  have hfields : (d.definition.fields.map fieldEntry).mapM (FieldEntry.toField n) =
      .ok d.definition.fields := by
    simpa using Except.mapM_map_eq_ok (h := fun f => f)
      fun f hf => toField_fieldEntry hn (h.fields f hf)
  rw [addType, Declaration.entry, Names.resolve_text hn h.id]
  obtain ⟨⟨id, name, shape, fields⟩, parent⟩ := d
  cases parent with
  | none => cases shape <;> simp only [hfields] <;> rfl
  | some parent =>
    have hparent := Names.resolve_text hn (h.parent parent rfl)
    cases shape <;> simp only [hfields, Option.map_some, hparent] <;> rfl

def names (t : TypeSystem) : Names :=
  t.types.foldl (fun n d => n.insert d.definition.name d.definition.id) (.ofList wellKnown)

theorem names_toDocument (h : t.IsLegible) : t.toDocument.names = .ok t.names := by
  rw [TypeDocument.names, toDocument, List.foldlM_map]
  refine Except.foldlM_eq_ok (fun d hd n => ?_) _
  rw [Declaration.entry, NodeId.ofDocument_text (h.types d hd).id]
  rfl

theorem arePlain_names (h : t.IsLegible) : t.names.ArePlain := by
  have hplain := Names.arePlain_wellKnown.foldl_insert
    (l := t.types.map fun d => (d.definition.name, d.definition.id))
    (by simpa using fun d hd => (h.types d hd).name)
  rwa [List.foldl_map] at hplain

theorem build_toDocument (h : t.IsLegible) : t.toDocument.build = .ok t.registry := by
  have hplain := arePlain_names h
  have htypes (r : Registry) : t.types.foldlM (fun r d => addType t.names r d.entry) r =
      .ok (t.types.foldl Declaration.register r) :=
    Except.foldlM_eq_ok (fun d hd => addType_entry hplain (h.types d hd)) r
  have hlinks (r : Registry) : t.links.foldlM (fun r l => addLink t.names r (linkEntry l)) r =
      .ok (t.links.foldl link r) :=
    Except.foldlM_eq_ok (fun l hl => addLink_linkEntry hplain (h.links l hl)) r
  rw [TypeDocument.build, Except.bind_eq_ok_iff]
  refine ⟨t.names, names_toDocument h, ?_⟩
  rw [toDocument, List.foldlM_map, htypes]
  exact List.foldlM_map.trans (hlinks _)

end TypeSystem
end UaBridge
