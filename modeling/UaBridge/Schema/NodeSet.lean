import UaBridge.Markup.Document
import UaBridge.Schema.LoadError
import UaBridge.Schema.Registry

namespace UaBridge.NodeSet
open Markup

structure TypeNode where
  id : NodeId
  parent : Option NodeId
  definition : Option Definition

abbrev Aliases := Assoc String NodeId

def Aliases.resolve (a : Aliases) (value : String) : Except LoadError NodeId :=
  match a.find? (Text.trimmed value) with
  | some id => .ok id
  | none => NodeId.ofDocument value

def required (e : Element) (key : String) : Except LoadError String :=
  match e.attribute? key with
  | some value => .ok value
  | none => .error (.missingAttribute e.name key)

def aliasOf (e : Element) : Except LoadError (String × NodeId) := do
  let name ← required e "Alias"
  let id ← (NodeId.parse (Text.trimmed e.text)).mapError (.nodeId e.text)
  return (name, id)

def aliasesOf (root : Element) : Except LoadError Aliases :=
  match root.named "Aliases" with
  | [] => .ok .empty
  | first :: _ => return .ofList (← (first.named "Alias").mapM aliasOf)

def isInverse (reference : Element) : Bool :=
  (reference.attribute? "IsForward").any fun v =>
    (Text.trim v.toList).map Char.toLower == "false".toList

def isSubtypeLink (a : Aliases) (reference : Element) : Bool :=
  isInverse reference && (reference.attribute? "ReferenceType").any fun kind =>
    kind == "HasSubtype" || (a.resolve kind).toOption == some NodeId.hasSubtype

def parentOf (a : Aliases) (type : Element) : Except LoadError (Option NodeId) :=
  match type.named "References" with
  | [] => .ok none
  | references :: _ =>
    match (references.named "Reference").find? (isSubtypeLink a) with
    | none => .ok none
    | some reference => (a.resolve (Text.trimmed reference.text)).map some

def flag (e : Element) (key : String) : Except LoadError Bool :=
  match (e.attribute? key).map Text.trimmed with
  | none => .ok false
  | some value =>
    if value = "true" ∨ value = "1" then .ok true
    else if value = "false" ∨ value = "0" then .ok false
    else .error (.invalidValue key value)

def isArray (e : Element) : Except LoadError Bool :=
  match (e.attribute? "ValueRank").map Text.trimmed with
  | none => .ok false
  | some value =>
    if value = "-1" then .ok false
    else if value = "1" then .ok true
    else .error (.invalidValue "ValueRank" value)

def fieldOf (a : Aliases) (e : Element) : Except LoadError Field := do
  let name ← required e "Name"
  let type ← match e.attribute? "DataType" with
    | some value => a.resolve value
    | none => .ok .baseDataType
  return ⟨name, type, ← isArray e, ← flag e "IsOptional"⟩

/-- Fields that have a value and no type are the names of an enumeration. -/
def isEnumeration (fields : List Element) : Bool :=
  !fields.isEmpty && fields.all fun f =>
    (f.attribute? "DataType").isNone && (f.attribute? "Value").isSome

def definitionOf (a : Aliases) (id : NodeId) (name : String) (e : Element) :
    Except LoadError (Option Definition) := do
  let fields := e.named "Field"
  if isEnumeration fields then return none
  let union ← flag e "IsUnion"
  return some ⟨id, name, if union then .union else .record, ← fields.mapM (fieldOf a)⟩

def localName (name : String) : String :=
  match Text.cut? ':' name.toList with
  | some (index, rest) => if index.all Char.isDigit then String.ofList rest else name
  | none => name

def typeNodeOf (a : Aliases) (e : Element) : Except LoadError TypeNode := do
  let id ← a.resolve (← required e "NodeId")
  let parent ← parentOf a e
  let name := ((e.attribute? "BrowseName").map localName).getD ""
  match e.named "Definition" with
  | [] => return ⟨id, parent, none⟩
  | d :: _ => return ⟨id, parent, ← definitionOf a id name d⟩

def typeNodesOf (a : Aliases) (root : Element) : Except LoadError (List TypeNode) :=
  (root.named "UADataType").mapM (typeNodeOf a)

def TypeNode.register (r : Registry) (t : TypeNode) : Registry :=
  let linked := match t.parent with
    | some parent => r.registerSubtype t.id parent
    | none => r
  match t.definition with
  | some d => linked.register d
  | none => linked

def registryOf (types : List TypeNode) : Registry := types.foldl TypeNode.register .empty

def build (root : Element) : Except LoadError (Registry × Note) := do
  let a ← aliasesOf root
  let types ← typeNodesOf a root
  return (registryOf types, .nodeSetLoaded (types.countP (·.definition.isSome))
    (types.countP (·.parent.isSome)) a.size)

def load (text : String) : Except LoadError (Registry × Note) :=
  match Element.parse? text with
  | some root => build root
  | none => .error .markup

end UaBridge.NodeSet
