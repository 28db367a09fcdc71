import Mathlib.Data.Set.Function
import UaBridge.Bridge.Identifier
import UaBridge.Proofs.Except

namespace UaBridge

inductive NodeId.HasAddress : NodeId → Plant.Address → Prop
  | numeric (ns : UInt16) (n : UInt32) :
      HasAddress (.numeric ns n) (.numeric (Int32.ofNat ns.toNat) (Int64.ofNat n.toNat))
  | string (ns : UInt16) (s : String) :
      HasAddress (.string ns s) (.string (Int32.ofNat ns.toNat) s)

theorem NodeId.toAddress_eq_ok_iff {id : NodeId} {a : Plant.Address} :
    id.toAddress = .ok a ↔ id.HasAddress a := by
  constructor
  · intro h
    obtain ⟨ns, identifier⟩ := id
    cases identifier with
    | numeric n => cases h; exact .numeric ns n
    | string s => cases h; exact .string ns s
    | guid g => cases h
    | bytes b => cases h
  · intro h
    cases h <;> rfl

def NodeId.isBinary (id : NodeId) : Bool :=
  match id.identifier with
  | .numeric _ | .string _ => false
  | .guid _ | .bytes _ => true

theorem NodeId.exists_hasAddress_iff {id : NodeId} :
    (∃ a, id.HasAddress a) ↔ id.isBinary = false := by
  constructor
  · rintro ⟨a, h⟩
    cases h <;> rfl
  · intro h
    obtain ⟨ns, identifier⟩ := id
    cases identifier with
    | numeric n => exact ⟨_, .numeric ns n⟩
    | string s => exact ⟨_, .string ns s⟩
    | guid g => cases h
    | bytes b => cases h

theorem NodeId.isBinary_iff {id : NodeId} :
    id.isBinary ↔ (∃ g, id.identifier = .guid g) ∨ ∃ b, id.identifier = .bytes b := by
  obtain ⟨ns, identifier⟩ := id
  cases identifier <;> simp [isBinary]

theorem NodeId.toAddress_eq_error_iff {id : NodeId} {f : Failure} :
    id.toAddress = .error f ↔ id.isBinary ∧ f = .of (.noAddress id) := by
  obtain ⟨ns, identifier⟩ := id
  cases identifier <;> simp [toAddress, isBinary, eq_comm]

theorem toInt_ofNat_toNat_namespace (ns : UInt16) : (Int32.ofNat ns.toNat).toInt = ns.toNat := by
  have := ns.toNat_lt
  exact Int32.toInt_ofNat_of_lt (by omega)

theorem toInt_ofNat_toNat_number (n : UInt32) : (Int64.ofNat n.toNat).toInt = n.toNat := by
  have := n.toNat_lt
  exact Int64.toInt_ofNat_of_lt (by omega)

namespace Plant.Address

theorem ns?_eq_some {a : Address} {ns : UInt16} (h : a.ns.toInt = ns.toNat) :
    a.ns? = some ns := by
  have hlt := ns.toNat_lt
  have hrange : 0 ≤ a.ns.toInt ∧ a.ns.toInt < UInt16.size := by
    rw [h, UInt16.size]
    omega
  rw [ns?, if_pos hrange, h, Int.toNat_natCast, UInt16.ofNat_toNat]

theorem number?_eq_some {m : Int64} {n : UInt32} (h : m.toInt = n.toNat) :
    number? m = some n := by
  have hlt := n.toNat_lt
  have hrange : 0 ≤ m.toInt ∧ m.toInt < UInt32.size := by
    rw [h, UInt32.size]
    omega
  rw [number?, if_pos hrange, h, Int.toNat_natCast, UInt32.ofNat_toNat]

theorem toNodeId_of_hasAddress {id : NodeId} {a : Address} (h : id.HasAddress a) :
    a.toNodeId = .ok id := by
  cases h with
  | numeric ns n =>
    have hns : ns? (numeric (Int32.ofNat ns.toNat) (Int64.ofNat n.toNat)) = some ns :=
      ns?_eq_some (toInt_ofNat_toNat_namespace ns)
    have hn := number?_eq_some (toInt_ofNat_toNat_number n)
    simp only [toNodeId, hns]
    simp only [numeric, hn]
  | string ns s =>
    have hns : ns? (string (Int32.ofNat ns.toNat) s) = some ns :=
      ns?_eq_some (toInt_ofNat_toNat_namespace ns)
    simp only [toNodeId, hns]
    rfl

theorem toInt_ns_of_ns?_eq_some {a : Address} {ns : UInt16} (h : a.ns? = some ns) :
    a.ns.toInt = ns.toNat := by
  rw [ns?] at h
  split at h
  next hrange =>
    cases h
    rw [UInt16.size] at hrange
    rw [UInt16.toNat_ofNat_of_lt' (by rw [UInt16.size]; omega)]
    omega
  next => cases h

theorem toInt_of_number?_eq_some {m : Int64} {n : UInt32} (h : number? m = some n) :
    m.toInt = n.toNat := by
  rw [number?] at h
  split at h
  next hrange =>
    cases h
    rw [UInt32.size] at hrange
    rw [UInt32.toNat_ofNat_of_lt' (by rw [UInt32.size]; omega)]
    omega
  next => cases h

theorem hasAddress_of_toNodeId {id : NodeId} {a : Address} (h : a.toNodeId = .ok id) :
    id.HasAddress a := by
  obtain ⟨ns, identifier⟩ := a
  simp only [toNodeId] at h
  split at h
  next => cases h
  next found hns =>
    have hspace : ns = Int32.ofNat found.toNat := by
      apply Int32.toInt_inj.1
      rw [toInt_ofNat_toNat_namespace]
      exact toInt_ns_of_ns?_eq_some hns
    cases identifier with
    | string s =>
      cases h
      rw [hspace]
      exact .string found s
    | numeric m =>
      simp only at h
      split at h
      next => cases h
      next n hn =>
        cases h
        have hnumber : m = Int64.ofNat n.toNat := by
          apply Int64.toInt_inj.1
          rw [toInt_ofNat_toNat_number]
          exact toInt_of_number?_eq_some hn
        rw [hspace, hnumber]
        exact .numeric found n

theorem toNodeId_eq_ok_iff {id : NodeId} {a : Address} : a.toNodeId = .ok id ↔ id.HasAddress a :=
  ⟨hasAddress_of_toNodeId, toNodeId_of_hasAddress⟩

theorem ns?_eq_none_iff {a : Address} :
    a.ns? = none ↔ ¬(0 ≤ a.ns.toInt ∧ a.ns.toInt < UInt16.size) := by
  simp [ns?]

theorem number?_eq_none_iff {n : Int64} :
    number? n = none ↔ ¬(0 ≤ n.toInt ∧ n.toInt < UInt32.size) := by
  simp [number?]

theorem toNodeId_eq_error_iff {a : Address} {f : Failure} :
    a.toNodeId = .error f ↔
      a.ns? = none ∧ f = .of (.namespaceRange a) ∨
        a.ns?.isSome ∧ (∃ n, a.identifier = .numeric n ∧ number? n = none) ∧
          f = .of (.identifierRange a) := by
  obtain ⟨ns, identifier⟩ := a
  rw [toNodeId]
  cases hns : ns? ⟨ns, identifier⟩ with
  | none => simp [eq_comm]
  | some found =>
    cases identifier with
    | string s => simp
    | numeric n => cases hn : number? n <;> simp [hn, eq_comm]

end Plant.Address

theorem injOn_isOk_of_undone {ε ε' α β : Type} {f : α → Except ε β} {g : β → Except ε' α}
    (h : ∀ a b, f a = .ok b → g b = .ok a) : Set.InjOn f {a | (f a).isOk} := by
  intro a ha a' _ heq
  cases hb : f a with
  | error e => simp [hb, Except.isOk, Except.toBool] at ha
  | ok b => exact Except.ok.inj ((h a b hb).symm.trans (h a' b (heq ▸ hb)))

/-- Node ids and addresses are converted by partial maps that undo each other. Only GUIDs and byte
strings have no address, and an address is of no node only if its namespace is not of 16 bits or its
number not of 32 bits, both without a sign; what fails is a malformed identifier. -/
theorem NodeId.toAddress_undoes_toNodeId :
    (∀ (id : NodeId) (a : Plant.Address), id.toAddress = .ok a ↔ a.toNodeId = .ok id) ∧
      (∀ id : NodeId, (∃ f, id.toAddress = .error f) ↔
        (∃ g, id.identifier = .guid g) ∨ ∃ b, id.identifier = .bytes b) ∧
      (∀ a : Plant.Address, (∃ f, a.toNodeId = .error f) ↔
        ¬(0 ≤ a.ns.toInt ∧ a.ns.toInt < UInt16.size) ∨
          ∃ n, a.identifier = .numeric n ∧ ¬(0 ≤ n.toInt ∧ n.toInt < UInt32.size)) ∧
      (∀ id : NodeId, id.toAddress.FailsOnly (·.kind = .malformedIdentifier)) ∧
      (∀ a : Plant.Address, a.toNodeId.FailsOnly (·.kind = .malformedIdentifier)) ∧
      Set.InjOn NodeId.toAddress {id | id.toAddress.isOk} ∧
      Set.InjOn Plant.Address.toNodeId {a | a.toNodeId.isOk} := by
  have hiff (id : NodeId) (a : Plant.Address) : id.toAddress = .ok a ↔ a.toNodeId = .ok id :=
    toAddress_eq_ok_iff.trans Plant.Address.toNodeId_eq_ok_iff.symm
  refine ⟨hiff, fun id => ?_, fun a => ?_, fun id f hf => ?_, fun a f hf => ?_, ?_, ?_⟩
  · simp [toAddress_eq_error_iff, ← isBinary_iff]
  · simp only [Plant.Address.toNodeId_eq_error_iff, ← Plant.Address.ns?_eq_none_iff,
      ← Plant.Address.number?_eq_none_iff]
    cases a.ns? <;> simp
  · obtain ⟨-, rfl⟩ := toAddress_eq_error_iff.1 hf
    rfl
  · obtain ⟨-, rfl⟩ | ⟨-, -, rfl⟩ := Plant.Address.toNodeId_eq_error_iff.1 hf <;> rfl
  · exact injOn_isOk_of_undone fun id a => (hiff id a).1
  · exact injOn_isOk_of_undone fun a id => (hiff id a).2

end UaBridge
