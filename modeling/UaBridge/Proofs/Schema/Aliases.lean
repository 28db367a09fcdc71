import UaBridge.Proofs.Assoc
import UaBridge.Proofs.Markup.Element
import UaBridge.Proofs.Schema.NodeSet

namespace UaBridge.NodeSet
open Markup

/-- The aliases that a document declares; only its first list of aliases counts. -/
def declarations (root : Element) : List Element :=
  match root.named "Aliases" with
  | [] => []
  | first :: _ => first.named "Alias"

def aliased? (root : Element) (name : String) : Option NodeId :=
  ((declarations root).reverse.find? (·.attribute? "Alias" = some name)).bind fun e =>
    (NodeId.parse e.text).toOption

section Expansion
variable (look : String → Option NodeId)

/-- The text of the id that an alias is for; what is no alias stays as it is. -/
def writtenOut (value : String) : String :=
  match look (Text.trimmed value) with
  | some id => id.text
  | none => value

def expandField (field : Element) : Element := field.mapAttribute "DataType" (writtenOut look)

def expandDefinition (definition : Element) : Element :=
  definition.mapNamed "Field" (expandField look)

/-- The name of the subtype reference is never looked up as an alias. -/
def expandKind (kind : String) : String :=
  if kind = "HasSubtype" then kind else writtenOut look kind

def isSupertype (reference : Element) : Bool :=
  (reference.attribute? "ReferenceType").any fun kind =>
    kind == "HasSubtype" || (NodeId.parse (writtenOut look kind)).toOption == some NodeId.hasSubtype

def expandReference (reference : Element) : Element :=
  if isInverse reference then
    let e := reference.mapAttribute "ReferenceType" (expandKind look)
    if isSupertype look reference && (look (Text.trimmed reference.text)).isSome then
      e.withText (writtenOut look reference.text)
    else e
  else reference

def expandReferences (references : Element) : Element :=
  references.mapNamed "Reference" (expandReference look)

def expandType (type : Element) : Element :=
  ((type.mapAttribute "NodeId" (writtenOut look)).mapNamed "References"
    (expandReferences look)).mapNamed "Definition" (expandDefinition look)

end Expansion

def expanded (root : Element) : Element :=
  (root.without "Aliases").mapNamed "UADataType" (expandType (aliased? root))

variable {root e : Element} {a : Aliases} {look : String → Option NodeId} {name key value : String}
  {id : NodeId}

theorem aliasOf_eq_ok (h : aliasOf e = .ok (name, id)) :
    e.attribute? "Alias" = some name ∧ NodeId.parse e.text = .ok id := by
  simp only [aliasOf, Except.bind_eq_ok_iff] at h
  obtain ⟨name', hname, id', hid, heq⟩ := h
  cases heq
  rw [Except.mapError_eq_ok_iff, NodeId.parse_trimmed] at hid
  exact ⟨required_eq_ok_iff.1 hname, hid⟩

theorem aliasesOf_eq (root : Element) :
    aliasesOf root = ((declarations root).mapM aliasOf).map Assoc.ofList := by
  rw [aliasesOf, declarations]
  cases root.named "Aliases" with
  | nil => rfl
  | cons first rest =>
    simp only
    cases (first.named "Alias").mapM aliasOf <;> rfl

theorem find?_of_forall₂ {es : List Element} {entries : List (String × NodeId)}
    (h : List.Forall₂ (fun e entry => aliasOf e = .ok entry) es entries) (name : String) :
    (entries.find? (·.1 = name)).map (·.2) =
      (es.find? (·.attribute? "Alias" = some name)).bind fun e =>
        (NodeId.parse e.text).toOption := by
  induction h with
  | nil => rfl
  | @cons e entry es entries he _ ih =>
    obtain ⟨hname, hid⟩ := aliasOf_eq_ok he
    by_cases h : entry.1 = name
    · simp [hname, h, hid, Except.toOption]
    · simp [hname, h, ih]

theorem find?_aliasesOf (h : aliasesOf root = .ok a) (name : String) :
    a.find? name = aliased? root name := by
  rw [aliasesOf_eq, Except.map_eq_ok_iff] at h
  obtain ⟨entries, hentries, rfl⟩ := h
  rw [Assoc.find?_ofList, aliased?]
  exact find?_of_forall₂ (List.rel_reverse (Except.mapM_eq_ok_iff.1 hentries)) name

theorem isLegible_of_aliased? (h : aliased? root name = some id) : id.isLegible = true := by
  obtain ⟨e, -, he⟩ := Option.bind_eq_some_iff.1 h
  cases hparse : NodeId.parse e.text with
  | error => rw [hparse] at he; cases he
  | ok id' =>
    rw [hparse] at he
    cases he
    exact NodeId.isLegible_of_parse hparse

structure Aliases.Reads (a : Aliases) (look : String → Option NodeId) : Prop where
  find?_eq : ∀ name, a.find? name = look name
  isLegible : ∀ {name id}, look name = some id → id.isLegible = true

theorem reads_aliasesOf (h : aliasesOf root = .ok a) : a.Reads (aliased? root) :=
  ⟨find?_aliasesOf h, isLegible_of_aliased?⟩

theorem writtenOut_ne_hasSubtype (hvalue : value ≠ "HasSubtype") :
    writtenOut look value ≠ "HasSubtype" := by
  rw [writtenOut]
  split
  next id _ =>
    intro htext
    have hsep := id.separator_mem_text
    rw [htext] at hsep
    revert hsep
    decide
  next => exact hvalue

@[simp] theorem attribute?_expandField (look : String → Option NodeId) (field : Element) :
    (expandField look field).attribute? "DataType" =
      (field.attribute? "DataType").map (writtenOut look) :=
  field.attribute?_mapAttribute_self

theorem attribute?_expandField_of_ne (look : String → Option NodeId) (field : Element)
    (h : key ≠ "DataType") : (expandField look field).attribute? key = field.attribute? key :=
  field.attribute?_mapAttribute_of_ne h

theorem isEnumeration_map_expandField (look : String → Option NodeId) (fields : List Element) :
    isEnumeration (fields.map (expandField look)) = isEnumeration fields := by
  simp only [isEnumeration, List.isEmpty_map, List.all_map, Function.comp_def,
    attribute?_expandField, Option.isNone_map,
    attribute?_expandField_of_ne look _ (by decide : "Value" ≠ "DataType")]

theorem name_expandField (look : String → Option NodeId) (field : Element) :
    (expandField look field).name = field.name := rfl

theorem name_expandDefinition (look : String → Option NodeId) (definition : Element) :
    (expandDefinition look definition).name = definition.name := rfl

theorem name_expandReferences (look : String → Option NodeId) (references : Element) :
    (expandReferences look references).name = references.name := rfl

theorem name_expandType (look : String → Option NodeId) (type : Element) :
    (expandType look type).name = type.name := rfl

theorem name_expandReference (look : String → Option NodeId) (reference : Element) :
    (expandReference look reference).name = reference.name := by
  rw [expandReference]
  split_ifs <;> simp

theorem isInverse_expandReference (look : String → Option NodeId) (reference : Element) :
    isInverse (expandReference look reference) = isInverse reference := by
  have hforward : (expandReference look reference).attribute? "IsForward" =
      reference.attribute? "IsForward" := by
    rw [expandReference]
    split_ifs <;> simp [Element.attribute?_mapAttribute]
  rw [isInverse, hforward, isInverse]

theorem attribute?_expandReference {reference : Element} (h : isInverse reference = true) :
    (expandReference look reference).attribute? "ReferenceType" =
      (reference.attribute? "ReferenceType").map (expandKind look) := by
  rw [expandReference]
  split_ifs <;> simp

section Reading
variable (h : a.Reads look)
include h

theorem resolve_writtenOut (value : String) :
    Aliases.resolve .empty (writtenOut look value) = a.resolve value := by
  rw [writtenOut, Aliases.resolve.eq_def a, h.find?_eq]
  cases hlook : look (Text.trimmed value) with
  | none => rfl
  | some id => exact TypeSystem.resolve_empty_text (h.isLegible hlook)

theorem resolve_trimmed_writtenOut (value : String) :
    Aliases.resolve .empty (Text.trimmed (writtenOut look value)) =
      a.resolve (Text.trimmed value) := by
  rw [writtenOut, Aliases.resolve.eq_def a, Text.trimmed_trimmed, h.find?_eq]
  cases hlook : look (Text.trimmed value) with
  | none => rfl
  | some id =>
    exact (congrArg _ (NodeId.trimmed_text (h.isLegible hlook))).trans
      (TypeSystem.resolve_empty_text (h.isLegible hlook))

theorem fieldOf_expandField (field : Element) :
    fieldOf .empty (expandField look field) = fieldOf a field := by
  simp only [fieldOf, required, isArray, flag, attribute?_expandField,
    attribute?_expandField_of_ne _ _ (by decide : "Name" ≠ "DataType"),
    attribute?_expandField_of_ne _ _ (by decide : "ValueRank" ≠ "DataType"),
    attribute?_expandField_of_ne _ _ (by decide : "IsOptional" ≠ "DataType")]
  cases field.attribute? "DataType" with
  | none => rfl
  | some value =>
    simp only [Option.map_some, resolve_writtenOut h]
    rfl

theorem definitionOf_expandDefinition (name : String) (definition : Element) :
    definitionOf .empty id name (expandDefinition look definition) =
      definitionOf a id name definition := by
  have hfields : (expandDefinition look definition).named "Field" =
      (definition.named "Field").map (expandField look) :=
    definition.named_mapNamed_self (name_expandField look)
  have hflag : flag (expandDefinition look definition) "IsUnion" = flag definition "IsUnion" := rfl
  have hread : fieldOf .empty ∘ expandField look = fieldOf a := funext (fieldOf_expandField h)
  simp only [definitionOf, hfields, hflag, isEnumeration_map_expandField, List.mapM_map, hread]

theorem isHasSubtype_expandKind (kind : String) :
    (expandKind look kind == "HasSubtype" ||
        (Aliases.resolve .empty (expandKind look kind)).toOption == some NodeId.hasSubtype) =
      (kind == "HasSubtype" || (a.resolve kind).toOption == some NodeId.hasSubtype) := by
  rw [expandKind]
  split
  next hkind => simp [hkind]
  next hkind =>
    rw [resolve_writtenOut h, beq_eq_false_iff_ne.2 hkind,
      beq_eq_false_iff_ne.2 (writtenOut_ne_hasSubtype hkind)]

theorem isSubtypeLink_expandReference (reference : Element) :
    isSubtypeLink .empty (expandReference look reference) = isSubtypeLink a reference := by
  rw [isSubtypeLink, isInverse_expandReference, isSubtypeLink]
  cases hinverse : isInverse reference with
  | false => rfl
  | true =>
    rw [attribute?_expandReference hinverse, Option.any_map]
    congr 2
    exact funext (isHasSubtype_expandKind h)

theorem isInverse_and_isSupertype (reference : Element) :
    (isInverse reference && isSupertype look reference) = isSubtypeLink a reference := by
  rw [isSubtypeLink, isSupertype]
  congr 2
  funext kind
  have hread : (NodeId.parse (writtenOut look kind)).toOption = (a.resolve kind).toOption := by
    rw [← resolve_writtenOut h, Aliases.resolve, NodeId.ofDocument]
    cases NodeId.parse (writtenOut look kind) <;> rfl
  rw [hread]

theorem resolve_text_expandReference {reference : Element}
    (hlink : isSubtypeLink a reference = true) :
    Aliases.resolve .empty (Text.trimmed (expandReference look reference).text) =
      a.resolve (Text.trimmed reference.text) := by
  obtain ⟨hinverse, hsupertype⟩ :=
    Bool.and_eq_true_iff.1 ((isInverse_and_isSupertype h reference).trans hlink)
  have htext : (expandReference look reference).text = writtenOut look reference.text := by
    rw [expandReference, if_pos hinverse, hsupertype, writtenOut]
    cases look (Text.trimmed reference.text) <;> simp
  rw [htext, resolve_trimmed_writtenOut h]

theorem parentOf_eq {e e' : Element}
    (he : e'.named "References" = (e.named "References").map (expandReferences look)) :
    parentOf .empty e' = parentOf a e := by
  rw [parentOf, he, parentOf]
  cases e.named "References" with
  | nil => rfl
  | cons references rest =>
    have hnamed : (expandReferences look references).named "Reference" =
        (references.named "Reference").map (expandReference look) :=
      references.named_mapNamed_self (name_expandReference look)
    have hlink : isSubtypeLink .empty ∘ expandReference look = isSubtypeLink a :=
      funext (isSubtypeLink_expandReference h)
    simp only [List.map_cons, hnamed, List.find?_map, hlink]
    cases hfind : (references.named "Reference").find? (isSubtypeLink a) with
    | none => rfl
    | some reference =>
      simp only [Option.map_some, resolve_text_expandReference h (List.find?_some hfind)]

theorem typeNodeOf_expandType (type : Element) :
    typeNodeOf .empty (expandType look type) = typeNodeOf a type := by
  have hid : (expandType look type).attribute? "NodeId" =
      (type.attribute? "NodeId").map (writtenOut look) := type.attribute?_mapAttribute_self
  have hname : (expandType look type).attribute? "BrowseName" = type.attribute? "BrowseName" :=
    type.attribute?_mapAttribute_of_ne (by decide)
  have hreferences : (expandType look type).named "References" =
      (type.named "References").map (expandReferences look) := by
    rw [expandType, Element.named_mapNamed_of_ne _ (name_expandDefinition look)
      (by decide : "References" ≠ "Definition"),
      Element.named_mapNamed_self _ (name_expandReferences look), Element.named_mapAttribute]
  have hdefinition : (expandType look type).named "Definition" =
      (type.named "Definition").map (expandDefinition look) := by
    rw [expandType, Element.named_mapNamed_self _ (name_expandDefinition look),
      Element.named_mapNamed_of_ne _ (name_expandReferences look)
        (by decide : "Definition" ≠ "References"), Element.named_mapAttribute]
  have hparent := parentOf_eq h hreferences
  simp only [typeNodeOf, required, hid, hname, hdefinition, hparent]
  cases type.attribute? "NodeId" with
  | none => rfl
  | some value =>
    cases type.named "Definition" with
    | nil => simp only [Option.map_some, Except.ok_bind, resolve_writtenOut h, List.map_nil]
    | cons definition rest =>
      simp only [Option.map_some, Except.ok_bind, resolve_writtenOut h, List.map_cons,
        definitionOf_expandDefinition h]

end Reading

theorem named_aliases_expanded (root : Element) : (expanded root).named "Aliases" = [] := by
  rw [expanded, Element.named_mapNamed_of_ne _ (name_expandType _)
    (by decide : "Aliases" ≠ "UADataType"), Element.named_without_self]

theorem typeNodesOf_expanded (h : aliasesOf root = .ok a) :
    typeNodesOf .empty (expanded root) = typeNodesOf a root := by
  have hread : typeNodeOf .empty ∘ expandType (aliased? root) = typeNodeOf a :=
    funext (typeNodeOf_expandType (reads_aliasesOf h))
  rw [typeNodesOf, expanded, Element.named_mapNamed_self _ (name_expandType _),
    Element.named_without_of_ne _ (by decide : "UADataType" ≠ "Aliases"), List.mapM_map, hread,
    typeNodesOf]

theorem build_expanded (h : aliasesOf root = .ok a) :
    (build (expanded root)).map (·.1) = (build root).map (·.1) := by
  have haliases : aliasesOf (expanded root) = .ok .empty := by
    rw [aliasesOf, named_aliases_expanded]
  rw [build, haliases, Except.ok_bind, typeNodesOf_expanded h, build, h, Except.ok_bind]
  cases typeNodesOf a root <;> rfl

/-- Aliases are abbreviations of ids. Whatever tree is read, it yields the same registry after the
ids have been written out and the declarations of the aliases are gone. -/
theorem aliases_abbreviate (root : Element) (g : Registry) (note : Note)
    (h : build root = .ok (g, note)) :
    (expanded root).named "Aliases" = [] ∧ (build (expanded root)).map (·.1) = .ok g := by
  refine ⟨named_aliases_expanded root, ?_⟩
  obtain ⟨a, ha, -⟩ := Except.bind_eq_ok_iff.1 h
  rw [build_expanded ha, h]
  rfl

namespace Tanks

def aliasFor (name id : String) : Markup.Node := .element "Alias" [("Alias", name)] [.text id]

def tankType (id kind parent level next : String) : Markup.Node :=
  .element "UADataType" [("NodeId", id), ("BrowseName", "1:Tank")]
    [.element "References" []
      [.element "Reference" [("ReferenceType", "Feeds"), ("IsForward", "true")] [.text "Level"],
        .element "Reference" [("ReferenceType", kind), ("IsForward", "false")] [.text parent]],
    .element "Definition" []
      [.element "Field" [("Name", "level"), ("DataType", level)] [],
        .element "Field" [("Name", "next"), ("DataType", next), ("IsOptional", "true")] []]]

def tree : Element where
  name := "UANodeSet"
  attributes := []
  children :=
    [.element "Aliases" []
      [aliasFor "Level" "i=6", aliasFor "i=5" " ns=1;s=Tank", aliasFor "Level" "i=10",
        aliasFor "Extends" "i=45", aliasFor "Base" "i=22"],
    tankType " i=5 " "Extends" " Base " "Level" "i=5"]

def plain : Element :=
  ⟨"UANodeSet", [], [tankType "ns=1;s=Tank" "i=45" "i=22" "i=10" "ns=1;s=Tank"]⟩

def registry : Registry :=
  (Registry.empty.registerSubtype (.string 1 "Tank") .structureType).register
    ⟨.string 1 "Tank", "Tank", .record,
      [⟨"level", Builtin.float.typeId, false, false⟩, ⟨"next", .string 1 "Tank", false, true⟩]⟩

end Tanks

theorem aliases_abbreviate_tanks :
    build Tanks.tree = .ok (Tanks.registry, .nodeSetLoaded 1 1 4) ∧
      expanded Tanks.tree = Tanks.plain ∧
      (build (expanded Tanks.tree)).map (·.1) = .ok Tanks.registry := by
  have h : build Tanks.tree = .ok (Tanks.registry, .nodeSetLoaded 1 1 4) := by rfl
  exact ⟨h, by rfl, (aliases_abbreviate Tanks.tree _ _ h).2⟩

end UaBridge.NodeSet
