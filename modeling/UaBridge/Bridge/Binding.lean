import UaBridge.Schema.Inquiry

/-!
The fields of a value placed in the schema of its type. The schema of a type is its own fields and
then those of its ancestors, nearest first; a value's field takes the first place of its name.
-/

namespace UaBridge

def firstRepeatAfter? {α : Type} [DecidableEq α] (seen : List α) : List α → Option α
  | [] => none
  | a :: r => if a ∈ seen then some a else firstRepeatAfter? (a :: seen) r

def firstRepeat? {α : Type} [DecidableEq α] (l : List α) : Option α := firstRepeatAfter? [] l

def supertypesOf (type : NodeId) : Inquiry Failure (List NodeId) := do
  let chain ← Inquiry.askSupertypes (fun e => .of (.lookup e)) type
  match firstRepeat? (type :: chain) with
  | some repeated => .fail (.of (.repeatedSupertype type repeated))
  | none => .done chain

def definitionOf (type : NodeId) : Inquiry Failure Definition :=
  Inquiry.askDefinition (fun e => .of (.lookup e)) type

def baseKindOf (type : NodeId) : Inquiry Failure BaseKind :=
  if type.isStandard then
    match BaseKind.of? type with
    | some kind => .done kind
    | none => .fail (.of (.notConvertible type))
  else do
    let chain ← supertypesOf type
    match chain.getLast? with
    | none => .fail (.of (.noSupertypes type))
    | some base =>
      match BaseKind.of? base with
      | some kind => .done kind
      | none => .fail (.of (.baseNotConvertible base type))

structure Layer where
  offset : Nat
  definition : Definition

structure Binding (β : Type) where
  position : Nat
  definition : Definition
  index : Nat
  field : Field
  value : β

/-- A schema as far as it has been looked up, and what of a value has found its place in it. -/
structure Claims (β : Type) where
  layers : List Layer
  width : Nat
  bound : List (Binding β)
  pending : List (String × β)

namespace Claims
variable {β : Type}

def start (fields : List (String × β)) : Claims β := ⟨[], 0, [], fields⟩

def binding? (offset : Nat) (d : Definition) (f : String × β) : Option (Binding β) :=
  (d.slot? f.1).map fun (field, index) => ⟨offset + index, d, index, field, f.2⟩

def add (c : Claims β) (d : Definition) : Claims β where
  layers := c.layers ++ [⟨c.width, d⟩]
  width := c.width + d.fields.length
  bound := c.bound ++ c.pending.filterMap (binding? c.width d)
  pending := c.pending.filter fun f => !(d.slot? f.1).isSome

def inherit (type : NodeId) (shape : Shape) : List NodeId → Claims β → Inquiry Failure (Claims β)
  | [], c => .done c
  | ancestor :: chain, c =>
    if c.pending.isEmpty ∧ shape = .union then .done c
    else if ancestor.isStandard then inherit type shape chain c
    else do
      let d ← definitionOf ancestor
      if !c.pending.isEmpty then .report (.consulting c.pending.length type ancestor)
      inherit type shape chain (c.add d)

def missingIn? (c : Claims β) (l : Layer) : Option Field :=
  (l.definition.fields.zipIdx.find? fun (field, index) =>
    !field.optional && !(c.bound.any (·.position == l.offset + index))).map (·.1)

def missing? (c : Claims β) : Option (Layer × Field) :=
  c.layers.findSome? fun l => (c.missingIn? l).map fun field => (l, field)

/-- A layer behind the first place counts as inherited. -/
def Layer.inheritedFrom? (l : Layer) : Option NodeId :=
  if l.offset = 0 then none else some l.definition.id

def finish (type : NodeId) (shape : Shape) (c : Claims β) : Inquiry Failure (List (Binding β)) :=
  match c.pending, shape, c.missing? with
  | f :: _, _, _ => .fail (.of (.undeclared f.1 type))
  | [], .record, some (l, field) =>
    .fail (.of (.mandatoryMissing field.name type (Layer.inheritedFrom? l)))
  | [], _, _ => .done (c.bound.mergeSort fun a b => decide (a.position ≤ b.position))

end Claims

def bindFields {β : Type} (type : NodeId) (d : Definition) (fields : List (String × β)) :
    Inquiry Failure (List (Binding β)) :=
  if d.isUnion ∧ 1 < fields.length then .fail (.of (.severalSelected type fields.length))
  else
    match firstRepeat? (fields.map (·.1)) with
    | some name => .fail (.of (.setTwice name type))
    | none =>
      let own := (Claims.start fields).add d
      if own.pending.isEmpty ∧ d.isUnion then own.finish type d.shape
      else do
        let chain ← supertypesOf type
        (← own.inherit type d.shape chain).finish type d.shape

end UaBridge
