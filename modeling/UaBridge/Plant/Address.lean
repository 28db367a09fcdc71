import UaBridge.Text.Digits

namespace UaBridge.Plant

inductive Identifier where
  | numeric (n : Int64)
  | string (s : String)
  deriving DecidableEq

structure Address where
  ns : Int32
  identifier : Identifier
  deriving DecidableEq

namespace Address

def numeric (ns : Int32) (n : Int64) : Address := ⟨ns, .numeric n⟩

def string (ns : Int32) (s : String) : Address := ⟨ns, .string s⟩

def numeric? (a : Address) : Option Int64 :=
  match a.identifier with
  | .numeric n => some n
  | .string _ => none

def string? (a : Address) : Option String :=
  match a.identifier with
  | .numeric _ => none
  | .string s => some s

def text (a : Address) : String :=
  Text.intText a.ns.toInt ++ ":" ++
    match a.identifier with
    | .numeric n => Text.intText n.toInt
    | .string s => "\"" ++ s ++ "\""

end Address
end UaBridge.Plant
