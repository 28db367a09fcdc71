import UaBridge.Number.Shortest

namespace UaBridge

structure LocalizedText where
  locale : Option String
  text : Option String
  deriving DecidableEq

namespace LocalizedText

def null : LocalizedText := ⟨none, none⟩

def isNull (t : LocalizedText) : Bool := t.locale.isNone && t.text.isNone

end LocalizedText

namespace Plant

inductive ScalarKind where
  | bool
  | schar
  | char
  | int
  | uint
  | long
  | ulong
  | llong
  | ullong
  | float
  | double
  | string
  | byteString
  | localizedText
  deriving DecidableEq

namespace ScalarKind

def all : List ScalarKind :=
  [bool, schar, char, int, uint, long, ulong, llong, ullong, float, double, string, byteString,
    localizedText]

def name : ScalarKind → String
  | bool => "Bool"
  | schar => "SChar"
  | char => "Char"
  | int => "Int"
  | uint => "UInt"
  | long => "Long"
  | ulong => "ULong"
  | llong => "LLong"
  | ullong => "ULLong"
  | float => "Float"
  | double => "Double"
  | string => "String"
  | byteString => "ByteString"
  | localizedText => "LocalizedText"

def isInteger : ScalarKind → Bool
  | schar | char | int | uint | long | ulong | llong | ullong => true
  | _ => false

def isFloat : ScalarKind → Bool
  | float | double => true
  | _ => false

end ScalarKind

inductive Scalar where
  | bool (b : Bool)
  | schar (v : Int8)
  | char (v : UInt8)
  | int (v : Int16)
  | uint (v : UInt16)
  | long (v : Int32)
  | ulong (v : UInt32)
  | llong (v : Int64)
  | ullong (v : UInt64)
  | float (x : Binary32)
  | double (x : Binary64)
  | string (s : Option String)
  | byteString (b : Option (List UInt8))
  | localizedText (t : LocalizedText)
  deriving DecidableEq

namespace Scalar

def kind : Scalar → ScalarKind
  | bool _ => .bool
  | schar _ => .schar
  | char _ => .char
  | int _ => .int
  | uint _ => .uint
  | long _ => .long
  | ulong _ => .ulong
  | llong _ => .llong
  | ullong _ => .ullong
  | float _ => .float
  | double _ => .double
  | string _ => .string
  | byteString _ => .byteString
  | localizedText _ => .localizedText

def bool? : Scalar → Option Bool
  | bool b => some b
  | _ => none

def integer? : Scalar → Option Int
  | schar v => some v.toInt
  | char v => some v.toNat
  | int v => some v.toInt
  | uint v => some v.toNat
  | long v => some v.toInt
  | ulong v => some v.toNat
  | llong v => some v.toInt
  | ullong v => some v.toNat
  | _ => none

def double? : Scalar → Option Binary64
  | float x => some x.widen
  | double x => some x
  | _ => none

def string? : Scalar → Option String
  | string s => s
  | _ => none

def bytes? : Scalar → Option (List UInt8)
  | byteString b => b
  | _ => none

def same : Scalar → Scalar → Bool
  | float x, float y => x.same y
  | double x, double y => x.same y
  | a, b => a == b

def text : Scalar → String
  | bool b => if b then "true" else "false"
  | schar v => Text.intText v.toInt
  | char v => Text.natText v.toNat
  | int v => Text.intText v.toInt
  | uint v => Text.natText v.toNat
  | long v => Text.intText v.toInt
  | ulong v => Text.natText v.toNat
  | llong v => Text.intText v.toInt
  | ullong v => Text.natText v.toNat
  | float x => x.text
  | double x => x.text
  | string none | byteString none => "null"
  | string (some s) => "\"" ++ s ++ "\""
  | byteString (some b) => "0x" ++ String.ofList (Text.hex b)
  | localizedText t => "[" ++ t.locale.getD "" ++ "] \"" ++ t.text.getD "" ++ "\""

end Scalar

inductive Kind where
  | scalar (kind : ScalarKind)
  | record
  | address
  deriving DecidableEq

def Kind.name : Kind → String
  | .scalar kind => kind.name
  | .record => "Structure"
  | .address => "NodeId"

inductive Form where
  | scalar
  | array
  | record
  | address
  deriving DecidableEq

def Form.name : Form → String
  | .scalar => "scalar"
  | .array => "array"
  | .record => "structure"
  | .address => "node id"

end Plant
end UaBridge
