namespace UaBridge

structure Guid where
  bytes : List UInt8
  length_eq : bytes.length = 16
  deriving DecidableEq

inductive Identifier where
  | numeric (n : UInt32)
  | string (s : String)
  | guid (g : Guid)
  | bytes (b : List UInt8)
  deriving DecidableEq

structure NodeId where
  ns : UInt16
  identifier : Identifier
  deriving DecidableEq

namespace NodeId

def numeric (ns : UInt16) (n : UInt32) : NodeId := ⟨ns, .numeric n⟩

def string (ns : UInt16) (s : String) : NodeId := ⟨ns, .string s⟩

def null : NodeId := numeric 0 0

def numeric? (id : NodeId) : Option UInt32 :=
  match id.identifier with
  | .numeric n => some n
  | _ => none

def isNull (id : NodeId) : Bool := id == null

def isStandard (id : NodeId) : Bool := id.ns == 0

end NodeId
end UaBridge
