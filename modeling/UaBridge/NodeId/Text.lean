import UaBridge.NodeId
import UaBridge.Text.Base64
import UaBridge.Text.Blank
import UaBridge.Text.Digits

/-!
The text form of node ids: `i=85`, `ns=2;s=Boiler1`, `ns=1;g=…`, `ns=3;b=AQID`. Namespace 0 is left
out when writing. Reading ignores white space around the whole text.
-/

namespace UaBridge

def Guid.chars (g : Guid) : List Char :=
  let group (start count : Nat) := Text.hex ((g.bytes.drop start).take count)
  group 0 4 ++ '-' :: group 4 2 ++ '-' :: group 6 2 ++ '-' :: group 8 2 ++ '-' :: group 10 6

namespace Guid

def dash? : List Char → Option (List Char)
  | '-' :: r => some r
  | _ => none

def ofBytes? (b : List UInt8) : Option Guid :=
  if h : b.length = 16 then some ⟨b, h⟩ else none

def read? (s : List Char) : Option Guid := do
  let (a, s) ← Text.readBytes 4 s
  let (b, s) ← Text.readBytes 2 (← dash? s)
  let (c, s) ← Text.readBytes 2 (← dash? s)
  let (d, s) ← Text.readBytes 2 (← dash? s)
  let (e, s) ← Text.readBytes 6 (← dash? s)
  if s = [] then ofBytes? (a ++ b ++ c ++ d ++ e) else none

end Guid

def Identifier.chars : Identifier → List Char
  | .numeric n => 'i' :: '=' :: Text.decimal n.toNat
  | .string s => 's' :: '=' :: s.toList
  | .guid g => 'g' :: '=' :: g.chars
  | .bytes b => 'b' :: '=' :: Text.Base64.encode b

namespace NodeId

def chars (id : NodeId) : List Char :=
  if id.ns = 0 then id.identifier.chars
  else 'n' :: 's' :: '=' :: Text.decimal id.ns.toNat ++ ';' :: id.identifier.chars

def text (id : NodeId) : String := String.ofList id.chars

inductive Fault where
  | ns
  | kind
  | numeric
  | guid
  | bytes
  deriving DecidableEq

def readSpace : List Char → Except Fault (UInt16 × List Char)
  | 'n' :: 's' :: '=' :: rest =>
    match Text.cut? ';' rest with
    | none => .error .ns
    | some (digits, body) =>
      match Text.readUnsigned UInt16.size digits with
      | none => .error .ns
      | some n => .ok (UInt16.ofNat n, body)
  | text => .ok (0, text)

def readIdentifier (body : List Char) : Except Fault Identifier :=
  match Text.cut? '=' body with
  | some (['i'], value) =>
    match Text.readUnsigned UInt32.size value with
    | none => .error .numeric
    | some n => .ok (.numeric (UInt32.ofNat n))
  | some (['s'], value) => .ok (.string (String.ofList value))
  | some (['g'], value) =>
    match Guid.read? value with
    | none => .error .guid
    | some g => .ok (.guid g)
  | some (['b'], value) =>
    match Text.Base64.decode value with
    | none => .error .bytes
    | some b => .ok (.bytes b)
  | _ => .error .kind

def read (s : List Char) : Except Fault NodeId :=
  match readSpace (Text.trim s) with
  | .error f => .error f
  | .ok (ns, body) =>
    match readIdentifier body with
    | .error f => .error f
    | .ok identifier => .ok ⟨ns, identifier⟩

structure ParseError where
  fault : Fault
  text : String
  deriving DecidableEq

def Fault.subject : Fault → String
  | .ns => "invalid namespace index"
  | .kind => "unknown identifier type"
  | .numeric => "invalid numeric identifier"
  | .guid => "invalid GUID identifier"
  | .bytes => "invalid opaque identifier"

def ParseError.message (e : ParseError) : String := e.fault.subject ++ " in '" ++ e.text ++ "'"

def parse (s : String) : Except ParseError NodeId :=
  match read s.toList with
  | .ok id => .ok id
  | .error f => .error ⟨f, s⟩

end NodeId
end UaBridge
