import UaBridge.Assoc
import UaBridge.Schema.Inquiry

namespace UaBridge

structure Cache where
  definitions : Assoc NodeId Definition
  supertypes : Assoc NodeId (List NodeId)

namespace Cache
variable {σ : Type}

def empty : Cache := ⟨.empty, .empty⟩

def askDefinition (b : Backend σ) (id : NodeId) (s : Cache × σ) :
    Except LookupError Definition × (Cache × σ) :=
  match s.1.definitions.find? id with
  | some d => (.ok d, s)
  | none =>
    match b.definition id (b.note (.loadingDefinition id) s.2) with
    | (.ok d, t) => (.ok d, { s.1 with definitions := s.1.definitions.insert id d }, t)
    | (.error e, t) => (.error e, s.1, t)

def askSupertypes (b : Backend σ) (id : NodeId) (s : Cache × σ) :
    Except LookupError (List NodeId) × (Cache × σ) :=
  match s.1.supertypes.find? id with
  | some chain => (.ok chain, s)
  | none =>
    match b.supertypes id (b.note (.loadingSupertypes id) s.2) with
    | (.ok chain, t) =>
      (.ok chain, { s.1 with supertypes := s.1.supertypes.insert id chain },
        b.note (.supertypesLoaded id chain.length) t)
    | (.error e, t) => (.error e, s.1, t)

def through (b : Backend σ) : Backend (Cache × σ) where
  definition := askDefinition b
  supertypes := askSupertypes b
  note n s := (s.1, b.note n s.2)

def past (b : Backend σ) : Backend (Cache × σ) where
  definition id s := let (answer, t) := b.definition id s.2; (answer, s.1, t)
  supertypes id s := let (answer, t) := b.supertypes id s.2; (answer, s.1, t)
  note n s := (s.1, b.note n s.2)

end Cache
end UaBridge
