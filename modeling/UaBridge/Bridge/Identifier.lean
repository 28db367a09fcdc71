import UaBridge.Failure

namespace UaBridge

def NodeId.toAddress (id : NodeId) : Except Failure Plant.Address :=
  match id.identifier with
  | .numeric n => .ok (.numeric (Int32.ofNat id.ns.toNat) (Int64.ofNat n.toNat))
  | .string s => .ok (.string (Int32.ofNat id.ns.toNat) s)
  | .guid _ | .bytes _ => .error (.of (.noAddress id))

namespace Plant.Address

def ns? (a : Address) : Option UInt16 :=
  if 0 ≤ a.ns.toInt ∧ a.ns.toInt < UInt16.size then some (UInt16.ofNat a.ns.toInt.toNat) else none

def number? (n : Int64) : Option UInt32 :=
  if 0 ≤ n.toInt ∧ n.toInt < UInt32.size then some (UInt32.ofNat n.toInt.toNat) else none

def toNodeId (a : Address) : Except Failure NodeId :=
  match a.ns? with
  | none => .error (.of (.namespaceRange a))
  | some ns =>
    match a.identifier with
    | .string s => .ok (.string ns s)
    | .numeric n =>
      match number? n with
      | none => .error (.of (.identifierRange a))
      | some n => .ok (.numeric ns n)

end Plant.Address
end UaBridge
