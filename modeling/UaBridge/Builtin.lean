import UaBridge.NodeId

namespace UaBridge

inductive Builtin where
  | boolean
  | sbyte
  | byte
  | int16
  | uint16
  | int32
  | uint32
  | int64
  | uint64
  | float
  | double
  | string
  | dateTime
  | byteString
  | nodeId
  | localizedText
  | extensionObject
  deriving DecidableEq

namespace Builtin

def all : List Builtin :=
  [boolean, sbyte, byte, int16, uint16, int32, uint32, int64, uint64, float, double, string,
    dateTime, byteString, nodeId, localizedText, extensionObject]

def name : Builtin → String
  | boolean => "Boolean"
  | sbyte => "SByte"
  | byte => "Byte"
  | int16 => "Int16"
  | uint16 => "UInt16"
  | int32 => "Int32"
  | uint32 => "UInt32"
  | int64 => "Int64"
  | uint64 => "UInt64"
  | float => "Float"
  | double => "Double"
  | string => "String"
  | dateTime => "DateTime"
  | byteString => "ByteString"
  | nodeId => "NodeId"
  | localizedText => "LocalizedText"
  | extensionObject => "ExtensionObject"

def code : Builtin → UInt32
  | boolean => 1
  | sbyte => 2
  | byte => 3
  | int16 => 4
  | uint16 => 5
  | int32 => 6
  | uint32 => 7
  | int64 => 8
  | uint64 => 9
  | float => 10
  | double => 11
  | string => 12
  | dateTime => 13
  | byteString => 15
  | nodeId => 17
  | localizedText => 21
  | extensionObject => 22

def ofCode? (n : UInt32) : Option Builtin := all.find? (·.code == n)

def typeId (b : Builtin) : NodeId := .numeric 0 b.code

def isInteger : Builtin → Bool
  | sbyte | byte | int16 | uint16 | int32 | uint32 | int64 | uint64 => true
  | _ => false

end Builtin

namespace NodeId

def structureType : NodeId := numeric 0 22

def baseDataType : NodeId := numeric 0 24

def enumerationType : NodeId := numeric 0 29

def hasSubtype : NodeId := numeric 0 45

def durationType : NodeId := numeric 0 290

def utcTimeType : NodeId := numeric 0 294

def unionType : NodeId := numeric 0 12756

end NodeId

/-- A structure has any number of fields set, a union at most one. -/
inductive Shape where
  | record
  | union
  deriving DecidableEq

def Shape.name : Shape → String
  | .record => "Structure"
  | .union => "Union"

inductive BaseKind where
  | value (type : Builtin)
  | structured (shape : Shape)
  deriving DecidableEq

/-- The kind of a base type of namespace 0. Enumerations travel as Int32, durations as Double,
times of day as DateTime. -/
def BaseKind.of? (id : NodeId) : Option BaseKind :=
  if id = .structureType then some (.structured .record)
  else if id = .unionType then some (.structured .union)
  else if id = .enumerationType then some (.value .int32)
  else if id = .durationType then some (.value .double)
  else if id = .utcTimeType then some (.value .dateTime)
  else if id.isStandard then (id.numeric?.bind Builtin.ofCode?).map .value
  else none

end UaBridge
