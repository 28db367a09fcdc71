import Mathlib.Data.List.Nodup
import UaBridge.Proofs.Schema.Entries
import UaBridge.Proofs.Schema.NodeSet
import UaBridge.Proofs.Schema.Replay

namespace UaBridge
open Markup NodeSet

structure Registry.Same (g h : Registry) : Prop where
  definitions : g.definitions.Same h.definitions
  parents : g.parents.Same h.parents

theorem Registry.Same.extend {g g' h h' : Registry} (hg : g.Same g') (hh : h.Same h') :
    (g.extend h).Same (g'.extend h') :=
  ⟨hg.definitions.merge hh.definitions, hg.parents.merge hh.parents⟩

theorem Registry.Same.resolver_eq {g h : Registry} (hsame : g.Same h) :
    g.resolver = h.resolver := by
  have hdefinition : g.definition? = h.definition? := funext hsame.definitions.find?_eq
  have hparent : g.parent? = h.parent? := by
    funext id
    rw [parent?, hsame.parents.find?_eq, hdefinition, parent?]
  have hknown : g.known = h.known := by
    rw [known, Assoc.size, hsame.definitions.perm.length_eq, Assoc.size,
      hsame.parents.perm.length_eq, known, Assoc.size, Assoc.size]
  have hclimb (steps : Nat) : g.climb steps = h.climb steps := by
    funext seen id
    induction steps generalizing seen id with
    | zero => rfl
    | succ steps ih => simp only [climb, hparent, ih]
  rw [resolver, resolver, Resolver.mk.injEq]
  constructor
  · funext id
    rw [definition, hdefinition, definition]
  · funext id
    rw [supertypes, hknown, hclimb, supertypes]

namespace NodeSet.TypeNode

def entry? (t : TypeNode) : Option (NodeId × Definition) := t.definition.map fun d => (d.id, d)

def link? (t : TypeNode) : Option (NodeId × NodeId) := t.parent.map (t.id, ·)

def IsOwn (t : TypeNode) : Prop := ∀ d ∈ t.definition, d.id = t.id

theorem extend_register (g h : Registry) (t : TypeNode) :
    g.extend (register h t) = register (g.extend h) t := by
  obtain ⟨id, _ | parent, _ | d⟩ := t <;>
    simp [register, Registry.extend_register, Registry.extend_registerSubtype]

end NodeSet.TypeNode

namespace NodeSet

theorem extend_registryOf (g : Registry) (ts : List TypeNode) :
    g.extend (registryOf ts) = ts.foldl TypeNode.register g := by
  rw [registryOf, ← List.foldl_hom (g.extend ·) fun h t => (TypeNode.extend_register g h t).symm,
    Registry.extend_empty]

theorem foldl_register (g : Registry) (ts : List TypeNode) : ts.foldl TypeNode.register g =
    ⟨(ts.filterMap TypeNode.entry?).foldl (fun m e => m.insert e.1 e.2) g.definitions,
      (ts.filterMap TypeNode.link?).foldl (fun m e => m.insert e.1 e.2) g.parents⟩ := by
  induction ts generalizing g with
  | nil => rfl
  | cons t ts ih =>
    rw [List.foldl_cons, ih]
    obtain ⟨id, _ | parent, _ | d⟩ := t <;> rfl

theorem registryOf_same {ts ts' : List TypeNode} (h : ts.Perm ts') (hown : ∀ t ∈ ts, t.IsOwn)
    (hids : (ts.map (·.id)).Nodup) : (registryOf ts).Same (registryOf ts') := by
  rw [List.Nodup, List.pairwise_map] at hids
  rw [registryOf, registryOf, foldl_register, foldl_register]
  refine ⟨Assoc.ofList_same (h.filterMap _) ?_, Assoc.ofList_same (h.filterMap _) ?_⟩
  · rw [List.pairwise_filterMap]
    refine hids.imp_of_mem fun {t u} ht hu hne e he e' he' => ?_
    obtain ⟨d, hd, rfl⟩ := Option.map_eq_some_iff.1 he
    obtain ⟨d', hd', rfl⟩ := Option.map_eq_some_iff.1 he'
    rw [hown t ht d hd, hown u hu d' hd']
    exact hne
  · rw [List.pairwise_filterMap]
    refine hids.imp fun hne e he e' he' => ?_
    obtain ⟨parent, -, rfl⟩ := Option.map_eq_some_iff.1 he
    obtain ⟨parent', -, rfl⟩ := Option.map_eq_some_iff.1 he'
    exact hne

end NodeSet

namespace TypeDocument
variable {doc doc' : TypeDocument} {n n' : Names} {t u : TypeEntry} {id : NodeId}

def nodeOf (n : Names) (t : TypeEntry) : Except LoadError TypeNode := do
  let id ← n.resolve t.id
  let parent ← t.parent.mapM n.resolve
  let fields ← t.fields.mapM (FieldEntry.toField n)
  return ⟨id, parent, some ⟨id, t.name, if t.union then .union else .record, fields⟩⟩

def linkNodeOf (n : Names) (l : LinkEntry) : Except LoadError TypeNode := do
  return ⟨← n.resolve l.id, some (← n.resolve l.parent), none⟩

theorem addType_eq (n : Names) :
    addType n = fun g t => (nodeOf n t).map (TypeNode.register g) := by
  funext g ⟨text, name, parent, union, entries⟩
  simp only [addType, nodeOf]
  cases n.resolve text with
  | error e => rfl
  | ok id =>
    cases parent with
    | none => cases entries.mapM (FieldEntry.toField n) <;> rfl
    | some parent =>
      simp only [Option.mapM_some]
      cases n.resolve parent with
      | error e => rfl
      | ok p => cases entries.mapM (FieldEntry.toField n) <;> rfl

theorem addLink_eq (n : Names) :
    addLink n = fun g l => (linkNodeOf n l).map (TypeNode.register g) := by
  funext g l
  simp only [addLink, linkNodeOf]
  cases n.resolve l.id with
  | error e => rfl
  | ok child => cases n.resolve l.parent <;> rfl

theorem build_eq (doc : TypeDocument) : doc.build = do
    let n ← doc.names
    let types ← doc.types.mapM (nodeOf n)
    let links ← doc.links.mapM (linkNodeOf n)
    return (registryOf types).extend (registryOf links) := by
  simp only [build, addType_eq, addLink_eq, Except.foldlM_map, extend_registryOf]
  congr 1
  funext n
  cases doc.types.mapM (nodeOf n) with
  | error e => rfl
  | ok types => cases doc.links.mapM (linkNodeOf n) <;> rfl

theorem names_eq (doc : TypeDocument) : doc.names =
    (doc.types.mapM fun t => (NodeId.ofDocument t.id).map (t.name, ·)).map
      (·.foldl (fun n e => n.insert e.1 e.2) (Assoc.ofList wellKnown)) := by
  rw [← Except.foldlM_map, names]
  congr 1
  funext n t
  cases NodeId.ofDocument t.id <;> rfl

theorem Names.resolve_congr (h : ∀ name, n.find? name = n'.find? name) :
    n.resolve = n'.resolve := by
  funext reference
  simp only [resolve, h]

theorem nodeOf_congr (h : ∀ name, n.find? name = n'.find? name) : nodeOf n = nodeOf n' := by
  funext t
  have hfield : FieldEntry.toField n = FieldEntry.toField n' := by
    funext f
    simp only [FieldEntry.toField, Names.resolve_congr h]
  simp only [nodeOf, hfield, Names.resolve_congr h]

theorem linkNodeOf_congr (h : ∀ name, n.find? name = n'.find? name) :
    linkNodeOf n = linkNodeOf n' := by
  funext l
  simp only [linkNodeOf, Names.resolve_congr h]

def typeIds (doc : TypeDocument) : List NodeId :=
  doc.types.filterMap fun t => (NodeId.parse t.id).toOption

def linkIds (doc : TypeDocument) : List NodeId :=
  match doc.names with
  | .ok n => doc.links.filterMap fun l => (n.resolve l.id).toOption
  | .error _ => []

/-- No type is declared twice, by id or by name, no name has the look of an id, and no type is
linked twice. -/
structure IsUnambiguous (doc : TypeDocument) : Prop where
  ids : doc.typeIds.Nodup
  names : (doc.types.map (·.name)).Nodup
  plain : ∀ t ∈ doc.types, '=' ∉ t.name.toList
  links : doc.linkIds.Nodup

theorem names_agree (h : doc.types.Perm doc'.types) (hnames : (doc.types.map (·.name)).Nodup) :
    doc.names.Agree (fun _ _ => True) (fun n n' => ∀ name, n.find? name = n'.find? name)
      doc'.names := by
  have hagree : doc.names.Agree (fun _ _ => True) (fun _ _ => True) doc'.names := by
    rw [names_eq, names_eq]
    exact (Except.Agree.mapM_perm h).map fun _ _ _ => trivial
  refine hagree.imp fun n n' hn hn' _ name => ?_
  obtain ⟨u, id, hlast, hdenotes, hfind⟩ | ⟨hnone, hfind⟩ := find?_names hn name
  · obtain ⟨u', id', hlast', hdenotes', hfind'⟩ | ⟨hnone', -⟩ := find?_names hn' name
    · obtain rfl : u = u' := List.inj_on_of_nodup_map hnames hlast.mem.1
        (h.mem_iff.2 hlast'.mem.1) (hlast.mem.2.trans hlast'.mem.2.symm)
      rw [hfind, hfind', hdenotes.unique hdenotes']
    · exact absurd hlast.mem.2 (hnone' u (h.mem_iff.1 hlast.mem.1))
  · obtain ⟨u', id', hlast', -⟩ | ⟨-, hfind'⟩ := find?_names hn' name
    · exact absurd hlast'.mem.2 (hnone u' (h.mem_iff.2 hlast'.mem.1))
    · rw [hfind, hfind']

theorem denotes_of_resolve (hn : doc.names = .ok n) (hplain : ∀ t ∈ doc.types, '=' ∉ t.name.toList)
    (ht : t ∈ doc.types) (h : n.resolve t.id = .ok id) : t.Denotes id := by
  cases (Names.resolve_eq_ok_iff hn ht).1 h with
  | named hlast _ =>
    obtain ⟨own, hown⟩ := exists_denotes_of_names hn t ht
    have hmem := NodeId.separator_mem_trimmed hown
    exact absurd (hlast.mem.2 ▸ hmem) (hplain _ hlast.mem.1)
  | denoted _ hdenotes => exact hdenotes

theorem nodeOf_eq_ok {node : TypeNode} (h : nodeOf n t = .ok node) :
    n.resolve t.id = .ok node.id ∧ node.IsOwn := by
  simp only [nodeOf, Except.bind_eq_ok_iff] at h
  obtain ⟨id, hid, parent, -, fields, -, heq⟩ := h
  cases heq
  exact ⟨hid, fun d hd => by cases hd; rfl⟩

theorem linkNodeOf_eq_ok {l : LinkEntry} {node : TypeNode} (h : linkNodeOf n l = .ok node) :
    n.resolve l.id = .ok node.id ∧ node.IsOwn := by
  simp only [linkNodeOf, Except.bind_eq_ok_iff] at h
  obtain ⟨child, hchild, parent, -, heq⟩ := h
  cases heq
  exact ⟨hchild, fun d hd => by cases hd⟩

theorem map_id_nodeOf {types : List TypeNode} (hn : doc.names = .ok n)
    (hplain : ∀ t ∈ doc.types, '=' ∉ t.name.toList) (h : doc.types.mapM (nodeOf n) = .ok types) :
    doc.typeIds = types.map (·.id) := by
  refine Except.filterMap_of_mapM_eq_ok h fun t ht node hnode => ?_
  rw [denotes_of_resolve hn hplain ht (nodeOf_eq_ok hnode).1]
  rfl

theorem map_id_linkNodeOf {links : List TypeNode} (hn : doc.names = .ok n)
    (h : doc.links.mapM (linkNodeOf n) = .ok links) : doc.linkIds = links.map (·.id) := by
  rw [linkIds, hn]
  refine Except.filterMap_of_mapM_eq_ok h fun l _ node hnode => ?_
  rw [(linkNodeOf_eq_ok hnode).1]
  rfl

theorem build_agree (h : doc.IsUnambiguous) (htypes : doc.types.Perm doc'.types)
    (hlinks : doc.links.Perm doc'.links) :
    doc.build.Agree (fun _ _ => True) Registry.Same doc'.build := by
  rw [build_eq, build_eq]
  refine (names_agree htypes h.names).bind fun n n' hn _ hsame => ?_
  rw [← nodeOf_congr hsame, ← linkNodeOf_congr hsame]
  refine (Except.Agree.mapM_perm htypes).bind fun types types' hread _ hperm => ?_
  have htypes : (registryOf types).Same (registryOf types') := by
    refine registryOf_same hperm (fun node hnode => ?_) (map_id_nodeOf hn h.plain hread ▸ h.ids)
    obtain ⟨t, -, ht⟩ := Except.exists_mem_of_mapM_eq_ok hread node hnode
    exact (nodeOf_eq_ok ht).2
  refine (Except.Agree.mapM_perm hlinks).bind fun links links' hread _ hperm => .ok ?_
  refine htypes.extend (registryOf_same hperm (fun node hnode => ?_)
    (map_id_linkNodeOf hn hread ▸ h.links))
  obtain ⟨l, -, hl⟩ := Except.exists_mem_of_mapM_eq_ok hread node hnode
  exact (linkNodeOf_eq_ok hl).2

end TypeDocument

namespace NodeSet
variable {root e : Element} {children : List Markup.Node} {a : Aliases} {id : NodeId}
  {node : TypeNode}

def idOf? (a : Aliases) (e : Element) : Option NodeId :=
  (e.attribute? "NodeId").bind fun text => (a.resolve text).toOption

def typeIds (root : Element) : List NodeId :=
  match aliasesOf root with
  | .ok a => (root.named "UADataType").filterMap (idOf? a)
  | .error _ => []

/-- There is one list of aliases at most, and no type is declared twice. -/
structure IsUnambiguous (root : Element) : Prop where
  aliases : (root.named "Aliases").length ≤ 1
  ids : (typeIds root).Nodup

theorem named_perm (h : root.children.Perm children) (key : String) :
    (root.named key).Perm (({ root with children } : Element).named key) :=
  (h.filterMap _).filter _

theorem definitionOf_eq_ok {name : String} {d? : Option Definition}
    (h : definitionOf a id name e = .ok d?) : ∀ d ∈ d?, d.id = id := by
  simp only [definitionOf] at h
  split at h
  next =>
    cases h
    simp
  next =>
    simp only [Except.bind_eq_ok_iff] at h
    obtain ⟨union, -, fields, -, heq⟩ := h
    cases heq
    simp

theorem typeNodeOf_eq_ok (h : typeNodeOf a e = .ok node) :
    idOf? a e = some node.id ∧ node.IsOwn := by
  simp only [typeNodeOf, Except.bind_eq_ok_iff] at h
  obtain ⟨text, htext, id, hid, parent, -, h⟩ := h
  have hhas : idOf? a e = some id := by
    rw [idOf?, required_eq_ok_iff.1 htext, Option.bind_some, hid]
    rfl
  split at h
  next =>
    cases h
    exact ⟨hhas, fun d hd => by cases hd⟩
  next =>
    simp only [Except.bind_eq_ok_iff] at h
    obtain ⟨d?, hd?, heq⟩ := h
    cases heq
    exact ⟨hhas, definitionOf_eq_ok hd?⟩

theorem aliasesOf_perm (h : root.children.Perm children)
    (haliases : (root.named "Aliases").length ≤ 1) :
    aliasesOf { root with children } = aliasesOf root := by
  have hperm := named_perm h "Aliases"
  -- A list of one element has no other order.
  have heq : ({ root with children } : Element).named "Aliases" = root.named "Aliases" := by
    match hroot : root.named "Aliases", haliases with
    | [], _ => exact List.perm_nil.1 (hroot ▸ hperm.symm)
    | [e], _ => exact List.perm_singleton.1 (hroot ▸ hperm.symm)
  rw [aliasesOf, heq, aliasesOf]

theorem map_id_typeNodeOf {types : List TypeNode} (ha : aliasesOf root = .ok a)
    (h : (root.named "UADataType").mapM (typeNodeOf a) = .ok types) :
    typeIds root = types.map (·.id) := by
  rw [typeIds, ha]
  exact Except.filterMap_of_mapM_eq_ok h fun e _ node hnode => (typeNodeOf_eq_ok hnode).1

theorem build_agree (hunambiguous : IsUnambiguous root) (h : root.children.Perm children) :
    (build root).Agree (fun _ _ => True) (fun x y => x.1.Same y.1 ∧ x.2 = y.2)
      (build { root with children }) := by
  rw [build, build, aliasesOf_perm h hunambiguous.aliases]
  refine (Except.Agree.refl (fun _ => trivial) _).bind fun a _ ha _ heq => ?_
  subst heq
  refine (Except.Agree.mapM_perm (named_perm h "UADataType")).bind
    fun types types' hread _ hperm => .ok ⟨registryOf_same hperm (fun node hnode => ?_) ?_, ?_⟩
  · obtain ⟨e, -, he⟩ := Except.exists_mem_of_mapM_eq_ok hread node hnode
    exact (typeNodeOf_eq_ok he).2
  · exact map_id_typeNodeOf ha hread ▸ hunambiguous.ids
  · rw [hperm.countP_eq, hperm.countP_eq]

end NodeSet

/-- Where declarations stand does not matter to the loaders, so references may go forward as well as
backward. A document put into another order is read as the same registry, or is refused again. -/
theorem loaders_ignore_order :
    (∀ doc doc' : TypeDocument, doc.IsUnambiguous →
      doc.types.Perm doc'.types → doc.links.Perm doc'.links →
        doc.build.Agree (fun _ _ => True) Registry.Same doc'.build) ∧
    ∀ (root : Element) (children : List Markup.Node), NodeSet.IsUnambiguous root →
      root.children.Perm children →
        (NodeSet.build root).Agree (fun _ _ => True) (fun x y => x.1.Same y.1 ∧ x.2 = y.2)
          (NodeSet.build { root with children }) :=
  ⟨fun _ _ => TypeDocument.build_agree, fun _ _ => NodeSet.build_agree⟩

namespace Pumps

def document : TypeDocument where
  types :=
    [⟨"ns=1;i=2", "Pump", some "Machine", false, [⟨"motor", "Motor", false, true⟩]⟩,
      ⟨" ns=1;s=Motor ", "Motor", some "Union", true, [⟨"pumps", "Pump", true, false⟩]⟩,
      ⟨"ns=1;i=1", "Machine", none, false, []⟩]
  links := [⟨"Motor", "Machine"⟩, ⟨"ns=1;i=1", "Structure"⟩]

def dataType (id parent fieldType : String) : Markup.Node :=
  .element "UADataType" [("NodeId", id)]
    [.element "References" [] [.element "Reference"
      [("ReferenceType", "HasSubtype"), ("IsForward", "false")] [.text parent]],
    .element "Definition" [] [.element "Field" [("Name", "part"), ("DataType", fieldType)] []]]

def tree : Element where
  name := "UANodeSet"
  attributes := []
  children :=
    [dataType "Pump" "ns=1;i=1" "Motor", .text "between", dataType "Motor" "Pump" "Pump",
      .element "Aliases" []
        [.element "Alias" [("Alias", "Pump")] [.text "ns=1;i=2"],
          .element "Alias" [("Alias", "Motor")] [.text "ns=1;s=Motor"]]]

end Pumps

theorem loaders_ignore_order_pumps :
    Pumps.document.build.isOk ∧ (NodeSet.build Pumps.tree).isOk ∧
    Pumps.document.build.Agree (fun _ _ => True) Registry.Same
      (TypeDocument.mk Pumps.document.types.reverse Pumps.document.links.reverse).build ∧
    (NodeSet.build Pumps.tree).Agree (fun _ _ => True) (fun x y => x.1.Same y.1 ∧ x.2 = y.2)
      (NodeSet.build { Pumps.tree with children := Pumps.tree.children.reverse }) := by
  have hdocument : Pumps.document.IsUnambiguous :=
    ⟨by decide, by decide, by decide, by decide⟩
  have htree : NodeSet.IsUnambiguous Pumps.tree := ⟨by decide, by decide⟩
  refine ⟨by rfl, by rfl, ?_, ?_⟩
  · exact loaders_ignore_order.1 Pumps.document ⟨_, _⟩ hdocument (List.reverse_perm _).symm
      (List.reverse_perm _).symm
  · exact loaders_ignore_order.2 Pumps.tree _ htree (List.reverse_perm _).symm

end UaBridge
