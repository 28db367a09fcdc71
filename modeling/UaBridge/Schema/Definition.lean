import UaBridge.Builtin
import UaBridge.NodeId.Text

namespace UaBridge

structure Field where
  name : String
  type : NodeId
  isArray : Bool
  optional : Bool
  deriving DecidableEq

structure Definition where
  id : NodeId
  name : String
  shape : Shape
  fields : List Field
  deriving DecidableEq

namespace Definition

def empty (id : NodeId) (name : String) : Definition := ⟨id, name, .record, []⟩

def add (d : Definition) (f : Field) : Definition := { d with fields := d.fields ++ [f] }

def isUnion (d : Definition) : Bool := d.shape == .union

def slot? (d : Definition) (name : String) : Option (Field × Nat) :=
  d.fields.zipIdx.find? (·.1.name == name)

def field? (d : Definition) (name : String) : Option Field := (d.slot? name).map (·.1)

def index? (d : Definition) (name : String) : Option Nat := (d.slot? name).map (·.2)

end Definition

def Field.text (f : Field) : String :=
  " " ++ f.name ++ ": " ++ f.type.text ++ (if f.isArray then "[]" else "") ++
    (if f.optional then "?" else "")

def Definition.text (d : Definition) : String :=
  (if d.isUnion then "union " else "struct ") ++ d.name ++ " [" ++ d.id.text ++ "] \x7b" ++
    ",".intercalate (d.fields.map Field.text) ++ " \x7d"

end UaBridge
