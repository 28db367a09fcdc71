import UaBridge.Builtin
import UaBridge.NodeId.Text
import UaBridge.Plant.Address
import UaBridge.Plant.Scalar

namespace UaBridge

inductive LookupError where
  | unknownType (id : NodeId)
  | cyclicHierarchy (id : NodeId)
  | unavailable (reason : String)
  deriving DecidableEq

def LookupError.message : LookupError → String
  | .unknownType id => "unknown data type " ++ id.text
  | .cyclicHierarchy id => "cyclic supertype hierarchy at " ++ id.text
  | .unavailable reason => "type information unavailable: " ++ reason

inductive Cause where
  | lookup (e : LookupError)
  | repeatedSupertype (type repeated : NodeId)
  | notConvertible (type : NodeId)
  | noSupertypes (type : NodeId)
  | baseNotConvertible (base type : NodeId)
  | tooDeep (type : NodeId) (depth limit : Nat)
  | severalSelected (type : NodeId) (count : Nat)
  | setTwice (field : String) (type : NodeId)
  | mandatoryMissing (field : String) (type : NodeId) (inheritedFrom : Option NodeId)
  | undeclared (field : String) (type : NodeId)
  | shapeMismatch (type : NodeId) (declared : Shape)
  | objectExpected (shape : Shape) (type : NodeId) (found : Builtin)
  | recordExpected (shape : Shape) (type : NodeId) (found : Plant.Form)
  | objectElementExpected (found : Builtin)
  | recordElementExpected (found : Plant.Form)
  | arrayExpected
  | scalarExpected
  | elementTypeMismatch (expected found : Builtin)
  | builtinMismatch (expected found : Builtin)
  | scalarToBuiltin (kind : Plant.ScalarKind) (target : Builtin)
  | formToBuiltin (form : Plant.Form) (target : Builtin)
  | nestedArray
  | outOfRange (n : Int) (target : Builtin)
  | notInteger (target : Builtin)
  | inexact (x : Binary64)
  | mixedVariants (elementType found : Builtin) (index : Nat)
  | mixedData (kind found : Plant.Kind) (index : Nat)
  | nestedArrayAt (index : Nat)
  | duplicateField (field : String) (type : Plant.Address)
  | noAddress (id : NodeId)
  | namespaceRange (address : Plant.Address)
  | identifierRange (address : Plant.Address)
  deriving DecidableEq

inductive Step where
  | index (i : Nat)
  | field (name : String)
  | node (id : NodeId)
  | point (address : Plant.Address)
  deriving DecidableEq

structure Failure where
  path : List Step
  cause : Cause
  deriving DecidableEq

inductive FailureKind where
  | unknownType
  | unknownField
  | typeMismatch
  | precisionLoss
  | arityMismatch
  | malformedIdentifier
  | cyclicType
  | resolverFailure
  deriving DecidableEq

def FailureKind.name : FailureKind → String
  | .unknownType => "unknown type"
  | .unknownField => "unknown field"
  | .typeMismatch => "type mismatch"
  | .precisionLoss => "precision loss"
  | .arityMismatch => "arity mismatch"
  | .malformedIdentifier => "malformed identifier"
  | .cyclicType => "cyclic type"
  | .resolverFailure => "resolver failure"

def LookupError.kind : LookupError → FailureKind
  | .unknownType _ => .unknownType
  | .cyclicHierarchy _ => .cyclicType
  | .unavailable _ => .resolverFailure

namespace Cause

def kind : Cause → FailureKind
  | lookup e => e.kind
  | repeatedSupertype .. | tooDeep .. => .cyclicType
  | notConvertible .. | noSupertypes .. | baseNotConvertible .. => .unknownType
  | severalSelected .. | setTwice .. | mandatoryMissing .. | duplicateField .. => .arityMismatch
  | undeclared .. => .unknownField
  | shapeMismatch .. | objectExpected .. | recordExpected .. | objectElementExpected ..
  | recordElementExpected .. | arrayExpected | scalarExpected | elementTypeMismatch ..
  | builtinMismatch .. | scalarToBuiltin .. | formToBuiltin .. | nestedArray | notInteger ..
  | mixedVariants .. | mixedData .. | nestedArrayAt .. => .typeMismatch
  | outOfRange .. | inexact .. => .precisionLoss
  | noAddress .. | namespaceRange .. | identifierRange .. => .malformedIdentifier

def message : Cause → String
  | lookup e => e.message
  | repeatedSupertype type repeated =>
    "supertype chain of " ++ type.text ++ " repeats " ++ repeated.text
  | notConvertible type => type.text ++ " is not a convertible data type"
  | noSupertypes type => "no supertypes known for " ++ type.text
  | baseNotConvertible base type =>
    "base type " ++ base.text ++ " of " ++ type.text ++ " is not convertible"
  | tooDeep type depth limit =>
    type.text ++ " nested " ++ Text.natText depth ++ " levels deep (limit " ++ Text.natText limit ++
      ")"
  | severalSelected type count =>
    "union " ++ type.text ++ " has " ++ Text.natText count ++ " fields set"
  | setTwice field type => "field '" ++ field ++ "' of " ++ type.text ++ " is set twice"
  | mandatoryMissing field type none =>
    "mandatory field '" ++ field ++ "' of " ++ type.text ++ " is missing"
  | mandatoryMissing field type (some ancestor) =>
    "mandatory field '" ++ field ++ "' of " ++ type.text ++ " (inherited from " ++ ancestor.text ++
      ") is missing"
  | undeclared field type =>
    "'" ++ field ++ "' is declared neither by " ++ type.text ++ " nor by its supertypes"
  | shapeMismatch type .union => type.text ++ " is a union but the value is a structure"
  | shapeMismatch type .record => type.text ++ " is not a union but the value is a union"
  | objectExpected shape type found =>
    shape.name ++ " type " ++ type.text ++ " expects ExtensionObject values, got " ++ found.name
  | recordExpected shape type found =>
    shape.name ++ " type " ++ type.text ++ " expects structure values, got " ++ found.name
  | objectElementExpected found => "expected ExtensionObject, got " ++ found.name
  | recordElementExpected found => "expected structure, got " ++ found.name
  | arrayExpected => "array expected, got a scalar"
  | scalarExpected => "scalar expected, got an array"
  | elementTypeMismatch expected found =>
    "expected array of " ++ expected.name ++ ", got array of " ++ found.name
  | builtinMismatch expected found => "expected " ++ expected.name ++ ", got " ++ found.name
  | scalarToBuiltin kind target => "cannot convert " ++ kind.name ++ " to " ++ target.name
  | formToBuiltin form target => "cannot convert " ++ form.name ++ " to " ++ target.name
  | nestedArray => "nested arrays are not supported"
  | outOfRange n target => Text.intText n ++ " does not fit into " ++ target.name
  | notInteger target => target.name ++ " is not an integer type"
  | inexact x => x.text ++ " cannot be represented as Float"
  | mixedVariants elementType found index =>
    "array of " ++ elementType.name ++ " contains " ++ found.name ++ " at index " ++
      Text.natText index
  | mixedData kind found index =>
    "array of " ++ kind.name ++ " contains " ++ found.name ++ " at index " ++ Text.natText index
  | nestedArrayAt index => "nested array at index " ++ Text.natText index
  | duplicateField field type => "duplicate field '" ++ field ++ "' in structure " ++ type.text
  | noAddress id => id.text ++ " has no IO representation"
  | namespaceRange address =>
    "namespace index " ++ Text.intText address.ns.toInt ++ " of " ++ address.text ++
      " is out of range"
  | identifierRange address => "numeric identifier of " ++ address.text ++ " is out of range"

end Cause

def Step.text : Step → String
  | .index i => "[" ++ Text.natText i ++ "]"
  | .field name => "field '" ++ name ++ "'"
  | .node id => id.text
  | .point address => address.text

namespace Failure

def of (cause : Cause) : Failure := ⟨[], cause⟩

def within (step : Step) (f : Failure) : Failure := ⟨step :: f.path, f.cause⟩

def kind (f : Failure) : FailureKind := f.cause.kind

def message (f : Failure) : String :=
  f.path.foldr (fun step rest => step.text ++ ": " ++ rest) f.cause.message

def source? (f : Failure) : Option LookupError :=
  match f.cause with
  | .lookup e => some e
  | _ => none

end Failure
end UaBridge
