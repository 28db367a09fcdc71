import UaBridge.Bridge.Binding
import UaBridge.Bridge.Scalar

/-!
Values of any type, converted recursively. Structures may nest as deep as the limit says: `room` is
how many more levels there may be, and the recursion is on it.
-/

namespace UaBridge

def checkArray (isArray : Bool) (field : Field) : Except Failure Unit :=
  if isArray = field.isArray then .ok ()
  else .error (.of (if field.isArray then .arrayExpected else .scalarExpected))

def Binding.convert {β γ : Type} (depth : Nat) (isArray : β → Bool)
    (convert : β → NodeId → Inquiry Failure γ) (b : Binding β) : Inquiry Failure (String × γ) := do
  .report (.converting depth b.position b.field.name b.field.type)
  let converted ← Inquiry.within (.field b.field.name) do
    .ofExcept (checkArray (isArray b.value) b.field)
    convert b.value b.field.type
  return (b.field.name, converted)

def Scalar.decodeElement (object : ExtensionObject → NodeId → Inquiry Failure Plant.Record)
    (type : NodeId) : Scalar → Inquiry Failure Plant.Record
  | .object t body => object ⟨t, body⟩ type
  | .leaf value => .fail (.of (.objectElementExpected value.builtin))

def Variant.decodeWith (object : ExtensionObject → NodeId → Inquiry Failure Plant.Record)
    (v : Variant) (type : NodeId) : Inquiry Failure Plant.Datum := do
  match ← baseKindOf type with
  | .value base => .ofExcept (v.decodeAs base)
  | .structured shape =>
    match v with
    | .scalar (.object t body) => return (← object ⟨t, body⟩ type).toDatum
    | .array .extensionObject elements =>
      let records ← Inquiry.eachIndexed (Scalar.decodeElement object type) elements
      .ofExcept (Plant.Datum.array? .record (records.map Plant.Record.toDatum))
    | _ => .fail (.of (.objectExpected shape type v.builtin))

/-- Decodes an extension object declared as `type`; its own type is not looked at. -/
def ExtensionObject.decode (limit : Nat) :
    Nat → ExtensionObject → NodeId → Inquiry Failure Plant.Record
  | 0, _, type => .fail (.of (.tooDeep type (limit + 1) limit))
  | room + 1, o, type => do
    let d ← definitionOf type
    if d.shape ≠ o.body.shape then .fail (.of (.shapeMismatch type d.shape))
    let depth := limit - room
    .report (.entering .decode depth type d.name o.body.toList.length)
    let bound ← bindFields type d o.body.toList
    let address ← .ofExcept type.toAddress
    let fields ← bound.mapM
      (Binding.convert depth Variant.isArray
        (Variant.decodeWith (ExtensionObject.decode limit room)))
    .ofExcept (Plant.Record.ofFields address fields)

namespace Plant

def Datum.encodeRecordElement (record : Record → NodeId → Inquiry Failure ExtensionObject)
    (type : NodeId) : Datum → Inquiry Failure ExtensionObject
  | .record t fields => record ⟨t, fields⟩ type
  | d => .fail (.of (.recordElementExpected d.form))

def Datum.encodeWith (locale : String) (record : Record → NodeId → Inquiry Failure ExtensionObject)
    (d : Datum) (type : NodeId) : Inquiry Failure Variant := do
  match ← baseKindOf type with
  | .value base => .ofExcept (d.encodeAs locale base)
  | .structured shape =>
    match d with
    | .record t fields => return .scalar (← record ⟨t, fields⟩ type).toScalar
    | .array .record elements =>
      let objects ← Inquiry.eachIndexed (Datum.encodeRecordElement record type) elements
      .ofExcept (Variant.array? .extensionObject (objects.map ExtensionObject.toScalar))
    | _ => .fail (.of (.recordExpected shape type d.form))

def Record.encode (locale : String) (limit : Nat) :
    Nat → Record → NodeId → Inquiry Failure ExtensionObject
  | 0, _, type => .fail (.of (.tooDeep type (limit + 1) limit))
  | room + 1, r, type => do
    let d ← definitionOf type
    let depth := limit - room
    .report (.entering .encode depth type d.name r.fields.length)
    let bound ← bindFields type d r.fields
    let fields ← bound.mapM
      (Binding.convert depth Datum.isArray
        (Datum.encodeWith locale (Record.encode locale limit room)))
    return ⟨type, match d.shape with
      | .record => .fields fields
      | .union => .union fields.getLast?⟩

end Plant
end UaBridge
