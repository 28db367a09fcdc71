import UaBridge.Schema.LoadError
import UaBridge.Schema.Registry
import UaBridge.Yaml.Record

namespace UaBridge

structure FieldEntry where
  name : String
  type : String
  isArray : Bool
  optional : Bool
  deriving DecidableEq

structure TypeEntry where
  id : String
  name : String
  parent : Option String
  union : Bool
  fields : List FieldEntry
  deriving DecidableEq

structure LinkEntry where
  id : String
  parent : String
  deriving DecidableEq

structure TypeDocument where
  types : List TypeEntry
  links : List LinkEntry
  deriving DecidableEq

namespace TypeDocument

def fieldOf? (n : Yaml.Node) : Option FieldEntry := do
  let r ← Yaml.Record.ofNode? ["name", "type", "array", "optional"] n
  return ⟨← r.required? "name" Yaml.Node.text?, ← r.required? "type" Yaml.Node.text?,
    ← r.optional? "array" false Yaml.Node.bool?, ← r.optional? "optional" false Yaml.Node.bool?⟩

def listOf? {α : Type} (read : Yaml.Node → Option α) (n : Yaml.Node) : Option (List α) := do
  (← n.items?).mapM read

def typeOf? (n : Yaml.Node) : Option TypeEntry := do
  let r ← Yaml.Record.ofNode? ["id", "name", "parent", "union", "fields"] n
  return ⟨← r.required? "id" Yaml.Node.text?, ← r.required? "name" Yaml.Node.text?,
    ← r.optional? "parent" none Yaml.Node.optionalText?,
    ← r.optional? "union" false Yaml.Node.bool?, ← r.optional? "fields" [] (listOf? fieldOf?)⟩

def linkOf? (n : Yaml.Node) : Option LinkEntry := do
  let r ← Yaml.Record.ofNode? ["id", "parent"] n
  return ⟨← r.required? "id" Yaml.Node.text?, ← r.required? "parent" Yaml.Node.text?⟩

def ofNode? (n : Yaml.Node) : Option TypeDocument := do
  let r ← Yaml.Record.ofNode? ["types", "subtypes"] n
  return ⟨← r.optional? "types" [] (listOf? typeOf?),
    ← r.optional? "subtypes" [] (listOf? linkOf?)⟩

abbrev Names := Assoc String NodeId

def scalarNames : List (String × NodeId) :=
  (Builtin.all.filter (· ≠ .extensionObject)).map fun b => (b.name, b.typeId)

def wellKnown : List (String × NodeId) :=
  scalarNames ++ [("Structure", .structureType), ("BaseDataType", .baseDataType),
    ("Enumeration", .enumerationType), ("Duration", .durationType), ("UtcTime", .utcTimeType),
    ("Union", .unionType)]

/-- The well-known names and those of the document; the latter ones go first. -/
def names (d : TypeDocument) : Except LoadError Names :=
  d.types.foldlM (fun names t => return names.insert t.name (← NodeId.ofDocument t.id))
    (Assoc.ofList wellKnown)

/-- The type that a reference means. What is no name is a node id if it has an equals sign. -/
def Names.resolve (n : Names) (reference : String) : Except LoadError NodeId :=
  let value := Text.trimmed reference
  match n.find? value with
  | some id => .ok id
  | none =>
    if value.toList.contains '=' then NodeId.ofDocument value else .error (.unknownName value)

def FieldEntry.toField (n : Names) (f : FieldEntry) : Except LoadError Field := do
  return ⟨f.name, ← n.resolve f.type, f.isArray, f.optional⟩

def addType (n : Names) (r : Registry) (t : TypeEntry) : Except LoadError Registry := do
  let id ← n.resolve t.id
  let linked ← match t.parent with
    | none => pure r
    | some parent => (n.resolve parent).map (r.registerSubtype id)
  let fields ← t.fields.mapM (FieldEntry.toField n)
  return linked.register ⟨id, t.name, if t.union then .union else .record, fields⟩

def addLink (n : Names) (r : Registry) (l : LinkEntry) : Except LoadError Registry := do
  return r.registerSubtype (← n.resolve l.id) (← n.resolve l.parent)

def build (d : TypeDocument) : Except LoadError Registry := do
  let n ← d.names
  d.links.foldlM (addLink n) (← d.types.foldlM (addType n) .empty)

def load (text : String) : Except LoadError (Registry × Note) :=
  match (Yaml.Node.parse? text).bind ofNode? with
  | none => .error .yaml
  | some d => do
    let r ← d.build
    return (r, .documentLoaded r.size)

end TypeDocument
end UaBridge
