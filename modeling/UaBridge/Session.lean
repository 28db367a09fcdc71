import UaBridge.Schema.Cache
import UaBridge.Schema.Preload
import UaBridge.Schema.Registry

namespace UaBridge

inductive Query where
  | definition (id : NodeId)
  | supertypes (id : NodeId)
  deriving DecidableEq

structure Source where
  registry : Registry
  /-- Why the registry cannot be reached, while it cannot. -/
  outage : Option String
  calls : List Query
  journal : List Note

namespace Source

def empty : Source := ⟨.empty, none, [], []⟩

def answer {α : Type} (s : Source) (reached : Except LookupError α) : Except LookupError α :=
  match s.outage with
  | some reason => .error (.unavailable reason)
  | none => reached

def backend : Backend Source where
  definition id s :=
    (s.answer (s.registry.definition id), { s with calls := s.calls ++ [.definition id] })
  supertypes id s :=
    (s.answer (s.registry.supertypes id), { s with calls := s.calls ++ [.supertypes id] })
  note n s := { s with journal := s.journal ++ [n] }

end Source

def preload (id : NodeId) (s : Cache × Source) : Except LookupError Unit × (Cache × Source) :=
  (Preload.all (s.2.registry.known + s.1.supertypes.size) id).run (Cache.through Source.backend) s

end UaBridge
