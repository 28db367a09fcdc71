import UaBridge.Proofs.Except
import UaBridge.Proofs.Schema.TypeSystem
import UaBridge.Schema.NodeSet

namespace UaBridge
open Markup NodeSet

theorem Markup.Element.named_eq {e : Element} {es : List Element} (h : e.children = es.map toNode)
    (key : String) : e.named key = es.filter (·.name == key) := by
  have helement : es.filterMap (Node.element? ∘ toNode) = es := List.filterMap_some
  rw [named, h, List.filterMap_map, helement]

theorem NodeSet.required_eq_ok_iff {e : Element} {key value : String} :
    required e key = .ok value ↔ e.attribute? key = some value := by
  rw [required]
  cases e.attribute? key <;> simp

namespace TypeSystem

def flagText (b : Bool) : String := if b then "true" else "false"

def fieldElement (f : Field) : Element where
  name := "Field"
  attributes :=
    [("Name", f.name), ("DataType", f.type.text), ("IsOptional", flagText f.optional)] ++
      if f.isArray then [("ValueRank", "1")] else []
  children := []

def definitionElement (d : Definition) : Element :=
  ⟨"Definition", [("IsUnion", flagText d.isUnion)], (d.fields.map fieldElement).map Element.toNode⟩

def referenceElement (parent : NodeId) : Element :=
  ⟨"Reference", [("ReferenceType", "HasSubtype"), ("IsForward", "false")], [.text parent.text]⟩

def referencesElement (parent : NodeId) : Element :=
  ⟨"References", [], [(referenceElement parent).toNode]⟩

def Declaration.element (t : Declaration) : Element where
  name := "UADataType"
  attributes := [("NodeId", t.definition.id.text), ("BrowseName", "1:" ++ t.definition.name)]
  children := (t.parent.toList.map referencesElement ++ [definitionElement t.definition]).map
    Element.toNode

def linkElement (l : NodeId × NodeId) : Element :=
  ⟨"UADataType", [("NodeId", l.1.text)], [(referencesElement l.2).toNode]⟩

def toElement (t : TypeSystem) : Element :=
  ⟨"UANodeSet", [], (t.types.map Declaration.element ++ t.links.map linkElement).map Element.toNode⟩

theorem resolve_empty_text {id : NodeId} (h : id.isLegible = true) :
    Aliases.resolve .empty id.text = .ok id :=
  NodeId.ofDocument_text h

theorem flag_eq {e : Element} {key : String} {b : Bool}
    (h : e.attribute? key = some (flagText b)) : flag e key = .ok b := by
  cases b <;> rw [flag, h] <;> rfl

theorem fieldOf_fieldElement {f : Field} (h : f.type.isLegible = true) :
    fieldOf .empty (fieldElement f) = .ok f := by
  have hname : required (fieldElement f) "Name" = .ok f.name := rfl
  have htype : (fieldElement f).attribute? "DataType" = some f.type.text := rfl
  have harray : isArray (fieldElement f) = .ok f.isArray := by
    obtain ⟨name, type, isArray, optional⟩ := f
    cases isArray <;> rfl
  have hoptional : flag (fieldElement f) "IsOptional" = .ok f.optional := flag_eq rfl
  simp only [fieldOf, hname, htype, resolve_empty_text h, harray, hoptional]
  rfl

theorem localName_browseName (name : String) : localName ("1:" ++ name) = name := by
  -- Only the first colon counts, so colons in the name are kept.
  have hcut : Text.cut? ':' ("1:" ++ name).toList = some (['1'], name.toList) := by
    rw [String.toList_append]
    exact Text.cut?_append (l := ['1']) (by decide)
  rw [localName, hcut]
  exact String.ofList_toList

theorem definitionOf_definitionElement {d : Definition}
    (h : ∀ f ∈ d.fields, f.type.isLegible = true) :
    NodeSet.definitionOf .empty d.id d.name (definitionElement d) = .ok (some d) := by
  have hnamed : (definitionElement d).named "Field" = d.fields.map fieldElement := by
    rw [Element.named_eq rfl, List.filter_eq_self]
    simp [fieldElement]
  have hfields : (d.fields.map fieldElement).mapM (fieldOf .empty) = .ok d.fields := by
    simpa using Except.mapM_map_eq_ok (h := fun f => f) fun f hf => fieldOf_fieldElement (h f hf)
  -- Every field has a type, and without fields there is no enumeration.
  have hplain : isEnumeration (d.fields.map fieldElement) = false := by
    cases d.fields with
    | nil => rfl
    | cons f fields => rfl
  have hunion : flag (definitionElement d) "IsUnion" = .ok d.isUnion := flag_eq rfl
  obtain ⟨id, name, shape, fields⟩ := d
  simp only [NodeSet.definitionOf, hnamed, hfields, hplain, hunion]
  cases shape <;> rfl

theorem parentOf_eq_none {e : Element} (h : e.named "References" = []) :
    parentOf .empty e = .ok none := by
  rw [parentOf, h]

theorem parentOf_eq_some {e : Element} {parent : NodeId}
    (h : e.named "References" = [referencesElement parent]) (hp : parent.isLegible = true) :
    parentOf .empty e = .ok (some parent) := by
  have hfind : ((referencesElement parent).named "Reference").find? (isSubtypeLink .empty) =
      some (referenceElement parent) := rfl
  have htext : (referenceElement parent).text = parent.text := rfl
  rw [parentOf, h]
  simp only [hfind, htext, NodeId.trimmed_text hp, resolve_empty_text hp]
  rfl

def Declaration.node (t : Declaration) : TypeNode := ⟨t.definition.id, t.parent, some t.definition⟩

def linkNode (l : NodeId × NodeId) : TypeNode := ⟨l.1, some l.2, none⟩

theorem typeNodeOf_element {t : Declaration} (h : t.IsLegible) :
    typeNodeOf .empty t.element = .ok t.node := by
  have hid : required t.element "NodeId" = .ok t.definition.id.text := rfl
  have hname : t.element.attribute? "BrowseName" = some ("1:" ++ t.definition.name) := rfl
  have hdefinition : t.element.named "Definition" = [definitionElement t.definition] := by
    rw [Element.named_eq rfl]
    cases t.parent <;> rfl
  have hparent : parentOf .empty t.element = .ok t.parent := by
    cases hp : t.parent with
    | none => exact parentOf_eq_none (by rw [Element.named_eq rfl, hp]; rfl)
    | some parent =>
      refine parentOf_eq_some ?_ (h.parent parent hp)
      rw [Element.named_eq rfl, hp]
      rfl
  have hread := definitionOf_definitionElement h.fields
  simp only [typeNodeOf, hid, hname, hdefinition, hparent, bind, Except.bind,
    resolve_empty_text h.id, Option.map_some, Option.getD_some, localName_browseName, hread]
  rfl

theorem typeNodeOf_linkElement {l : NodeId × NodeId}
    (h : l.1.isLegible = true ∧ l.2.isLegible = true) :
    typeNodeOf .empty (linkElement l) = .ok (linkNode l) := by
  have hid : required (linkElement l) "NodeId" = .ok l.1.text := rfl
  have hdefinition : (linkElement l).named "Definition" = [] := rfl
  have hparent : parentOf .empty (linkElement l) = .ok (some l.2) :=
    parentOf_eq_some rfl h.2
  simp only [typeNodeOf, hid, hdefinition, hparent, bind, Except.bind, resolve_empty_text h.1]
  rfl

theorem typeNodesOf_toElement {t : TypeSystem} (h : t.IsLegible) :
    typeNodesOf .empty t.toElement =
      .ok (t.types.map Declaration.node ++ t.links.map linkNode) := by
  have hnamed : t.toElement.named "UADataType" =
      t.types.map Declaration.element ++ t.links.map linkElement := by
    rw [Element.named_eq rfl, List.filter_eq_self]
    simp only [List.forall_mem_append, List.forall_mem_map]
    exact ⟨fun d _ => rfl, fun l _ => rfl⟩
  have htypes : (t.types.map Declaration.element).mapM (typeNodeOf .empty) =
      .ok (t.types.map Declaration.node) :=
    Except.mapM_map_eq_ok fun d hd => typeNodeOf_element (h.types d hd)
  have hlinks : (t.links.map linkElement).mapM (typeNodeOf .empty) =
      .ok (t.links.map linkNode) :=
    Except.mapM_map_eq_ok fun l hl => typeNodeOf_linkElement (h.links l hl)
  rw [typeNodesOf, hnamed, List.mapM_append, htypes, hlinks]
  rfl

theorem registryOf_nodes (t : TypeSystem) :
    registryOf (t.types.map Declaration.node ++ t.links.map linkNode) = t.registry := by
  have hregister : ∀ r (d : Declaration), TypeNode.register r d.node = d.register r := by
    rintro r ⟨definition, _ | parent⟩ <;> rfl
  rw [registryOf, List.foldl_append, List.foldl_map, List.foldl_map]
  simp only [hregister]
  rfl

theorem build_toElement {t : TypeSystem} (h : t.IsLegible) :
    (NodeSet.build t.toElement).map (·.1) = .ok t.registry := by
  have hnamed : t.toElement.named "Aliases" = [] := by
    rw [Element.named_eq rfl, List.filter_eq_nil_iff]
    simp only [List.forall_mem_append, List.forall_mem_map]
    exact ⟨fun d _ => Bool.false_ne_true, fun l _ => Bool.false_ne_true⟩
  have haliases : aliasesOf t.toElement = .ok .empty := by rw [aliasesOf, hnamed]
  rw [NodeSet.build, haliases]
  simp only [bind, Except.bind, typeNodesOf_toElement h, registryOf_nodes]
  rfl

end TypeSystem
end UaBridge
