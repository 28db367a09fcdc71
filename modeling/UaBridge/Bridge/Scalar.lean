import UaBridge.Bridge.Identifier
import UaBridge.Plant.Datum
import UaBridge.Variant

namespace UaBridge

def Builtin.datumKind : Builtin → Plant.Kind
  | .boolean => .scalar .bool
  | .sbyte => .scalar .schar
  | .byte => .scalar .char
  | .int16 => .scalar .int
  | .uint16 => .scalar .uint
  | .int32 => .scalar .long
  | .uint32 => .scalar .ulong
  | .int64 | .dateTime => .scalar .llong
  | .uint64 => .scalar .ullong
  | .float => .scalar .float
  | .double => .scalar .double
  | .string => .scalar .string
  | .byteString => .scalar .byteString
  | .localizedText => .scalar .localizedText
  | .nodeId => .address
  | .extensionObject => .record

def Leaf.toDatum : Leaf → Except Failure Plant.Datum
  | boolean b => .ok (.scalar (.bool b))
  | sbyte v => .ok (.scalar (.schar v))
  | byte v => .ok (.scalar (.char v))
  | int16 v => .ok (.scalar (.int v))
  | uint16 v => .ok (.scalar (.uint v))
  | int32 v => .ok (.scalar (.long v))
  | uint32 v => .ok (.scalar (.ulong v))
  | int64 v => .ok (.scalar (.llong v))
  | uint64 v => .ok (.scalar (.ullong v))
  | float x => .ok (.scalar (.float x))
  | double x => .ok (.scalar (.double x))
  | string s => .ok (.scalar (.string s))
  | dateTime ticks => .ok (.scalar (.llong ticks))
  | byteString b => .ok (.scalar (.byteString b))
  | nodeId id => id.toAddress.map .address
  | localizedText t => .ok (.scalar (.localizedText t))

def Scalar.decode (base : Builtin) : Scalar → Except Failure Plant.Datum
  | .leaf value =>
    if value.builtin = base then value.toDatum
    else .error (.of (.builtinMismatch base value.builtin))
  | .object .. => .error (.of (.builtinMismatch base .extensionObject))

def eachIndexed (f : α → Except Failure β) (l : List α) : Except Failure (List β) :=
  l.zipIdx.mapM fun p => (f p.1).mapError (·.within (.index p.2))

def Variant.decodeAs (base : Builtin) : Variant → Except Failure Plant.Datum
  | scalar value => value.decode base
  | array elementType elements =>
    if elementType = base then do
      Plant.Datum.array? base.datumKind (← eachIndexed (Scalar.decode base) elements)
    else .error (.of (.elementTypeMismatch base elementType))

def Leaf.ofInt (target : Builtin) (n : Int) : Except Failure Leaf :=
  let within (low high : Int) (leaf : Leaf) : Except Failure Leaf :=
    if low ≤ n ∧ n ≤ high then .ok leaf else .error (.of (.outOfRange n target))
  match target with
  | .sbyte => within (-128) 127 (.sbyte (Int8.ofInt n))
  | .byte => within 0 255 (.byte (UInt8.ofNat n.toNat))
  | .int16 => within (-32768) 32767 (.int16 (Int16.ofInt n))
  | .uint16 => within 0 65535 (.uint16 (UInt16.ofNat n.toNat))
  | .int32 => within (-2147483648) 2147483647 (.int32 (Int32.ofInt n))
  | .uint32 => within 0 4294967295 (.uint32 (UInt32.ofNat n.toNat))
  | .int64 => within (-9223372036854775808) 9223372036854775807 (.int64 (Int64.ofInt n))
  | .uint64 => within 0 18446744073709551615 (.uint64 (UInt64.ofNat n.toNat))
  | _ => .error (.of (.notInteger target))

namespace Plant

def Scalar.toLeaf (locale : String) (s : Scalar) (target : Builtin) : Except Failure Leaf :=
  match s, target with
  | .bool b, .boolean => .ok (.boolean b)
  | .float x, .float => .ok (.float x)
  | .float x, .double => .ok (.double x.widen)
  | .double x, .double => .ok (.double x)
  | .double x, .float =>
    match x.narrow? with
    | some y => .ok (.float y)
    | none => .error (.of (.inexact x))
  | .string v, .string => .ok (.string v)
  | .string v, .localizedText =>
    .ok (.localizedText (v.elim LocalizedText.null fun text => ⟨some locale, some text⟩))
  | .localizedText t, .localizedText => .ok (.localizedText t)
  | .byteString b, .byteString => .ok (.byteString b)
  | _, _ => .error (.of (.scalarToBuiltin s.kind target))

/-- Any integer kind encodes to any integer type that has the number; the widest signed kind also
counts the ticks of a date. -/
def Scalar.encode (locale : String) (s : Scalar) (target : Builtin) : Except Failure Leaf :=
  match s.integer? with
  | none => s.toLeaf locale target
  | some n =>
    if target.isInteger then Leaf.ofInt target n
    else
      match s, target with
      | .llong ticks, .dateTime => .ok (.dateTime ticks)
      | _, _ => .error (.of (.scalarToBuiltin s.kind target))

def Datum.encodeElement (locale : String) (target : Builtin) : Datum → Except Failure Leaf
  | .scalar value => value.encode locale target
  | .address value =>
    if target = .nodeId then value.toNodeId.map .nodeId
    else .error (.of (.formToBuiltin .address target))
  | .array .. => .error (.of .nestedArray)
  | .record .. => .error (.of (.formToBuiltin .record target))

def Datum.encodeAs (locale : String) (target : Builtin) : Datum → Except Failure Variant
  | .array _ elements => do
    let leaves ← eachIndexed (encodeElement locale target) elements
    Variant.array? target (leaves.map .leaf)
  | d => (d.encodeElement locale target).map fun leaf => .scalar (.leaf leaf)

end Plant
end UaBridge
