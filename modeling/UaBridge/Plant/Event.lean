import UaBridge.Plant.Datum

namespace UaBridge.Plant

structure Reading where
  address : Address
  value : Option Datum

namespace Reading

def same (a b : Reading) : Bool :=
  a.address == b.address &&
    match a.value, b.value with
    | none, none => true
    | some x, some y => x.same y
    | _, _ => false

def text (r : Reading) : String :=
  r.address.text ++ " = " ++ (r.value.map Datum.text).getD "<empty>"

end Reading

/-- A batch either owns its readings or refers to those of its maker. -/
structure Event where
  dateTime : Int64
  attached : Bool
  readings : List Reading

namespace Event

def attach (dateTime : Int64) (readings : List Reading) : Event := ⟨dateTime, true, readings⟩

def refer (dateTime : Int64) (readings : List Reading) : Event := ⟨dateTime, false, readings⟩

def get? (e : Event) (address : Address) : Option Reading :=
  e.readings.find? (·.address == address)

def toAttached (e : Event) : Event := attach e.dateTime e.readings

def same (a b : Event) : Bool :=
  a.dateTime == b.dateTime && a.readings.length == b.readings.length &&
    (a.readings.zip b.readings).all fun p => p.1.same p.2

def text (e : Event) : String :=
  "@" ++ Text.intText e.dateTime.toInt ++ " [" ++
    "; ".intercalate (e.readings.map Reading.text) ++ "]"

end Event
end UaBridge.Plant
