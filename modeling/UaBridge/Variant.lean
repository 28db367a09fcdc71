import UaBridge.Failure

namespace UaBridge

inductive Leaf where
  | boolean (b : Bool)
  | sbyte (v : Int8)
  | byte (v : UInt8)
  | int16 (v : Int16)
  | uint16 (v : UInt16)
  | int32 (v : Int32)
  | uint32 (v : UInt32)
  | int64 (v : Int64)
  | uint64 (v : UInt64)
  | float (x : Binary32)
  | double (x : Binary64)
  | string (s : Option String)
  | dateTime (ticks : Int64)
  | byteString (b : Option (List UInt8))
  | nodeId (id : NodeId)
  | localizedText (t : LocalizedText)
  deriving DecidableEq

namespace Leaf

def builtin : Leaf → Builtin
  | boolean _ => .boolean
  | sbyte _ => .sbyte
  | byte _ => .byte
  | int16 _ => .int16
  | uint16 _ => .uint16
  | int32 _ => .int32
  | uint32 _ => .uint32
  | int64 _ => .int64
  | uint64 _ => .uint64
  | float _ => .float
  | double _ => .double
  | string _ => .string
  | dateTime _ => .dateTime
  | byteString _ => .byteString
  | nodeId _ => .nodeId
  | localizedText _ => .localizedText

def same : Leaf → Leaf → Bool
  | float x, float y => x.same y
  | double x, double y => x.same y
  | a, b => a == b

end Leaf

mutual

inductive Scalar where
  | leaf (value : Leaf)
  | object (type : NodeId) (body : Body)

/-- The body of an extension object: fields of a structure, or the selected field of a union. -/
inductive Body where
  | fields (fields : List (String × Variant))
  | union (selected : Option (String × Variant))

inductive Variant where
  | scalar (value : Scalar)
  | array (elementType : Builtin) (elements : List Scalar)

end

def Scalar.builtin : Scalar → Builtin
  | .leaf value => value.builtin
  | .object .. => .extensionObject

namespace Body

def shape : Body → Shape
  | fields _ => .record
  | union _ => .union

def toList : Body → List (String × Variant)
  | fields fs => fs
  | union selected => selected.toList

def field? (b : Body) (name : String) : Option Variant :=
  (b.toList.find? (·.1 == name)).map (·.2)

end Body

structure ExtensionObject where
  type : NodeId
  body : Body

def ExtensionObject.toScalar (o : ExtensionObject) : Scalar := .object o.type o.body

namespace Variant

def isArray : Variant → Bool
  | scalar _ => false
  | array .. => true

def builtin : Variant → Builtin
  | scalar value => value.builtin
  | array elementType _ => elementType

def misfit? (elementType : Builtin) : Nat → List Scalar → Option Cause
  | _, [] => none
  | index, s :: r =>
    if s.builtin = elementType then misfit? elementType (index + 1) r
    else some (.mixedVariants elementType s.builtin index)

def array? (elementType : Builtin) (elements : List Scalar) : Except Failure Variant :=
  match misfit? elementType 0 elements with
  | none => .ok (.array elementType elements)
  | some cause => .error (.of cause)

end Variant

mutual

def Scalar.same : Scalar → Scalar → Bool
  | .leaf a, .leaf b => a.same b
  | .object t a, .object u b => t == u && a.same b
  | _, _ => false
termination_by structural a => a

def Body.same : Body → Body → Bool
  | .fields a, .fields b => Variant.sameFields a b
  | .union a, .union b => Variant.sameSelected a b
  | _, _ => false
termination_by structural a => a

def Variant.same : Variant → Variant → Bool
  | .scalar a, .scalar b => a.same b
  | .array t a, .array u b => t == u && Variant.sameElements a b
  | _, _ => false
termination_by structural a => a

def Variant.sameFields : List (String × Variant) → List (String × Variant) → Bool
  | [], [] => true
  | a :: r, b :: s => Variant.sameField a b && Variant.sameFields r s
  | _, _ => false
termination_by structural a => a

def Variant.sameSelected : Option (String × Variant) → Option (String × Variant) → Bool
  | none, none => true
  | some a, some b => Variant.sameField a b
  | _, _ => false
termination_by structural a => a

def Variant.sameField : String × Variant → String × Variant → Bool
  | (n, a), (m, b) => n == m && a.same b
termination_by structural a => a

def Variant.sameElements : List Scalar → List Scalar → Bool
  | [], [] => true
  | a :: r, b :: s => a.same b && Variant.sameElements r s
  | _, _ => false
termination_by structural a => a

end

structure DataValue where
  node : NodeId
  type : NodeId
  value : Option Variant

end UaBridge
