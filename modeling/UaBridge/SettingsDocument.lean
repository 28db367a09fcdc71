import UaBridge.Schema.LoadError
import UaBridge.Yaml.Record

namespace UaBridge

structure Settings where
  attach : Bool
  maxDepth : Nat
  /-- The language of plain strings that become localized texts. -/
  locale : String
  deriving DecidableEq

namespace Settings

def standard : Settings := ⟨false, 32, "en"⟩

def ofNode? (n : Yaml.Node) : Option Settings := do
  let r ← Yaml.Record.ofNode? ["attach_values", "max_depth", "default_locale"] n
  return ⟨← r.optional? "attach_values" standard.attach Yaml.Node.bool?,
    ← r.optional? "max_depth" standard.maxDepth Yaml.Node.nat?,
    ← r.optional? "default_locale" standard.locale Yaml.Node.text?⟩

def parse (text : String) : Except LoadError Settings :=
  match (Yaml.Node.parse? text).bind ofNode? with
  | some s => .ok s
  | none => .error .yaml

end Settings
end UaBridge
