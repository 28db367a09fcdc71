import UaBridge.Bridge.Structured
import UaBridge.Plant.Event
import UaBridge.SettingsDocument

namespace UaBridge

def Plant.Datum.isComposite (d : Plant.Datum) : Bool := d.form == .record || d.form == .array

def Variant.decode (s : Settings) (v : Variant) (type : NodeId) : Inquiry Failure Plant.Datum := do
  let d ← v.decodeWith (ExtensionObject.decode s.maxDepth s.maxDepth) type
  if d.isComposite then .report (.decoded type d)
  return d

def Plant.Datum.encode (s : Settings) (d : Plant.Datum) (type : NodeId) :
    Inquiry Failure Variant := do
  let v ← d.encodeWith s.locale (Plant.Record.encode s.locale s.maxDepth s.maxDepth) type
  if d.isComposite then .report (.encoded type d)
  return v

def DataValue.toReading (s : Settings) (v : DataValue) : Inquiry Failure Plant.Reading := do
  let address ← .ofExcept v.node.toAddress
  match v.value with
  | none => return ⟨address, none⟩
  | some value => return ⟨address, some (← (value.decode s v.type).within (.node v.node))⟩

def Plant.Reading.toDataValue (s : Settings) (r : Plant.Reading) (type : NodeId) :
    Inquiry Failure DataValue := do
  let node ← .ofExcept r.address.toNodeId
  match r.value with
  | none => return ⟨node, type, none⟩
  | some d => return ⟨node, type, some (← (d.encode s type).within (.point r.address))⟩

namespace Plant.Event

def ofDataValues (s : Settings) (dateTime : Int64) (values : List DataValue) :
    Inquiry Failure Event := do
  let readings ← values.mapM (DataValue.toReading s)
  .report (.batched dateTime readings.length)
  return attach dateTime readings

def ofReadings (s : Settings) (dateTime : Int64) (readings : List Reading) : Event :=
  if s.attach then attach dateTime readings else refer dateTime readings

end Plant.Event
end UaBridge
