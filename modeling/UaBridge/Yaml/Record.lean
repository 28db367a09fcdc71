import UaBridge.Text.Digits
import UaBridge.Yaml.Node

namespace UaBridge.Yaml

def announced? : List Char → Option Nat
  | '0' :: 'x' :: r => Text.readNat Text.hexDigit? 16 r
  | '0' :: 'o' :: r =>
    Text.readNat (fun c => (Text.decimalDigit? c).filter (· < 8)) 8 r
  | '0' :: 'b' :: r =>
    Text.readNat (fun c => (Text.decimalDigit? c).filter (· < 2)) 2 r
  | _ => none

def plainNat? (s : List Char) : Option Nat :=
  let digits := match s with
    | '+' :: r => r
    | _ => s
  (announced? digits).orElse fun _ =>
    if digits.head? = some '0' ∧ digits.length ≠ 1 then none
    else Text.readNat Text.decimalDigit? 10 digits

namespace Node

def text? : Node → Option String
  | scalar text _ => some text
  | _ => none

def optionalText? : Node → Option (Option String)
  | scalar text plain =>
    if plain ∧ (text = "" ∨ text = "~" ∨ text = "null" ∨ text = "Null" ∨ text = "NULL") then
      some none
    else some (some text)
  | _ => none

def bool? : Node → Option Bool
  | scalar text true =>
    if text = "true" ∨ text = "True" ∨ text = "TRUE" then some true
    else if text = "false" ∨ text = "False" ∨ text = "FALSE" then some false
    else none
  | _ => none

def nat? : Node → Option Nat
  | scalar text true => (plainNat? text.toList).filter (· < UInt64.size)
  | _ => none

def items? : Node → Option (List Node)
  | sequence items => some items
  | scalar "" true => some []
  | _ => none

end Node

abbrev Record := List (String × Node)

namespace Record

/-- The entries of a mapping whose keys are scalars and name none of `known` twice. -/
def ofNode? (known : List String) (n : Node) : Option Record := do
  let entries ← match n with
    | .mapping entries => some entries
    | .scalar "" true => some []
    | _ => none
  let named ← entries.mapM fun e => e.1.text?.map fun name => (name, e.2)
  if known.all fun k => named.countP (·.1 == k) ≤ 1 then some named else none

def required? {α : Type} (r : Record) (name : String) (read : Node → Option α) : Option α :=
  (r.lookup name).bind read

def optional? {α : Type} (r : Record) (name : String) (absent : α) (read : Node → Option α) :
    Option α :=
  match r.lookup name with
  | none => some absent
  | some n => read n

end Record
end UaBridge.Yaml
