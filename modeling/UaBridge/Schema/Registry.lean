import UaBridge.Assoc
import UaBridge.Schema.Inquiry

/-!
A type source in memory: definitions and explicit parent links. A defined type without a link
derives from the structure or union type of namespace 0. Ids of namespace 0 are roots.
-/

namespace UaBridge

structure Registry where
  definitions : Assoc NodeId Definition
  parents : Assoc NodeId NodeId

namespace Registry

def empty : Registry := ⟨.empty, .empty⟩

def register (r : Registry) (d : Definition) : Registry :=
  { r with definitions := r.definitions.insert d.id d }

def registerSubtype (r : Registry) (child parent : NodeId) : Registry :=
  { r with parents := r.parents.insert child parent }

def extend (r s : Registry) : Registry :=
  ⟨r.definitions.merge s.definitions, r.parents.merge s.parents⟩

def contains (r : Registry) (id : NodeId) : Bool :=
  r.definitions.contains id || r.parents.contains id

def definition? (r : Registry) (id : NodeId) : Option Definition := r.definitions.find? id

def size (r : Registry) : Nat := r.definitions.size

def isEmpty (r : Registry) : Bool := r.size == 0

def listing (r : Registry) : List Definition :=
  (r.definitions.entries.map (·.2)).mergeSort fun a b => decide (a.id.text ≤ b.id.text)

def root (d : Definition) : NodeId :=
  match d.shape with
  | .record => .structureType
  | .union => .unionType

def parent? (r : Registry) (id : NodeId) : Option NodeId :=
  (r.parents.find? id).orElse fun _ => (r.definition? id).map root

/-- Follows parents from `id` for at most `steps` links. `seen` holds the start and what follows it
up to `id`, latest first; the answer is what comes after `id`. -/
def climb (r : Registry) : Nat → List NodeId → NodeId → Except LookupError (List NodeId)
  | 0, _, id => .error (.cyclicHierarchy id)
  | steps + 1, seen, id =>
    match r.parent? id with
    | none => .ok []
    | some parent =>
      if parent ∈ seen then .error (.cyclicHierarchy parent)
      else if parent.isStandard then .ok [parent]
      else (r.climb steps (parent :: seen) parent).map (parent :: ·)

/-- How many ids have a parent, at most. -/
def known (r : Registry) : Nat := r.definitions.size + r.parents.size

def supertypes (r : Registry) (id : NodeId) : Except LookupError (List NodeId) :=
  if id.isStandard then .ok []
  else
    match r.climb (r.known + 1) [id] id with
    | .ok [] => .error (.unknownType id)
    | answer => answer

def definition (r : Registry) (id : NodeId) : Except LookupError Definition :=
  match r.definition? id with
  | some d => .ok d
  | none => .error (.unknownType id)

def resolver (r : Registry) : Resolver := ⟨r.definition, r.supertypes⟩

end Registry
end UaBridge
