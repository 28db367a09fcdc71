import UaBridge.Schema.Inquiry

/-!
Asking beforehand for all that a conversion of a type can ask for: its supertypes and, if it is
structured, the definitions of the type and its ancestors, and the same for the types of all their
fields. Namespace 0 needs no asking.
-/

namespace UaBridge.Preload

/-- Visits `id` and the types behind its fields, each type once, at most `steps` fields deep. The
answer is what has been visited. -/
def visit : Nat → List NodeId → NodeId → Inquiry LookupError (List NodeId)
  | 0, seen, _ => .done seen
  | steps + 1, seen, id =>
    if id.isStandard ∨ id ∈ seen then .done seen
    else do
      let chain ← Inquiry.askSupertypes (fun e => e) id
      match chain.getLast?.bind BaseKind.of? with
      | none => .fail (.unknownType id)
      | some (.value _) => .done (id :: seen)
      | some (.structured _) =>
        let definitions ← ((id :: chain).filter fun a => !a.isStandard).mapM
          (Inquiry.askDefinition fun e => e)
        (definitions.flatMap fun d => d.fields.map (·.type)).foldlM (visit steps) (id :: seen)

/-- Everything behind `id`, when the source knows the supertypes of at most `known` types. -/
def all (known : Nat) (id : NodeId) : Inquiry LookupError Unit :=
  (visit (known + 1) [] id).bind fun _ => .done ()

end UaBridge.Preload
