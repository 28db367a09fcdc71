import UaBridge.Bridge.Structured
import UaBridge.Proofs.Bridge.Integer
import UaBridge.Proofs.Plant.Record

namespace UaBridge

variable {α β : Type} {base : Builtin} {locale : String}

/-- A part of the value is not what is declared, or there is nothing that it could become. -/
def Cause.isUnfit : Cause → Bool
  | .arrayExpected | .scalarExpected | .elementTypeMismatch .. | .builtinMismatch ..
  | .scalarToBuiltin .. | .formToBuiltin .. | .outOfRange .. | .inexact .. | .noAddress ..
  | .namespaceRange .. | .identifierRange .. => true
  | _ => false

/-- What constructors refuse, and elements that an array of their kind cannot have. -/
def Cause.isCheck : Cause → Bool
  | .objectElementExpected .. | .recordElementExpected .. | .nestedArray | .notInteger ..
  | .mixedVariants .. | .mixedData .. | .nestedArrayAt .. | .duplicateField .. => true
  | _ => false

theorem Cause.isCheck_eq_false_of_isUnfit {cause : Cause} (h : cause.isUnfit) :
    cause.isCheck = false := by
  cases cause <;> first | rfl | cases h

abbrev FailsUnfit (x : Except Failure α) : Prop := x.FailsOnly (·.cause.isUnfit)

abbrev FailsInCheck (x : Except Failure α) : Prop := x.FailsOnly (·.cause.isCheck)

theorem eachIndexed_failsOnly {P : Failure → Prop} {f : α → Except Failure β} {l : List α}
    (hwithin : ∀ e step, P e → P (e.within step)) (h : ∀ a ∈ l, (f a).FailsOnly P) :
    (eachIndexed f l).FailsOnly P :=
  .mapM fun p hp => (h p.1 (List.fst_mem_of_mem_zipIdx hp)).mapError fun e he => hwithin e _ he

theorem NodeId.toAddress_failsUnfit (id : NodeId) : FailsUnfit id.toAddress := by
  intro f hf
  obtain ⟨-, rfl⟩ := toAddress_eq_error_iff.1 hf
  rfl

theorem Plant.Address.toNodeId_failsUnfit (a : Plant.Address) : FailsUnfit a.toNodeId := by
  intro f hf
  obtain ⟨-, rfl⟩ | ⟨-, -, rfl⟩ := toNodeId_eq_error_iff.1 hf <;> rfl

theorem checkArray_failsUnfit (isArray : Bool) (field : Field) :
    FailsUnfit (checkArray isArray field) := by
  unfold checkArray
  split
  next => exact .of_eq_ok rfl
  next => split <;> exact .error rfl

section decode

theorem Leaf.toDatum_failsUnfit (leaf : Leaf) : FailsUnfit leaf.toDatum := by
  cases leaf with
  | nodeId id => exact id.toAddress_failsUnfit.map
  | _ => exact .of_eq_ok rfl

theorem Scalar.decode_failsUnfit (e : Scalar) : FailsUnfit (e.decode base) := by
  cases e with
  | object t body => exact .error rfl
  | leaf leaf =>
    rw [decode]
    split
    next => exact leaf.toDatum_failsUnfit
    next => exact .error rfl

theorem Variant.decodeAs_failsUnfit (v : Variant) : FailsUnfit (v.decodeAs base) := by
  cases v with
  | scalar e => exact e.decode_failsUnfit
  | array t es =>
    by_cases htype : t = base
    · rw [htype, decodeAs_array]
      exact (eachIndexed_failsOnly (fun _ _ he => he) fun e _ => e.decode_failsUnfit).map
    · rw [decodeAs, if_neg htype]
      exact .error rfl

theorem Plant.Datum.isCheck_of_misfit? {kind : Plant.Kind} {index : Nat} {ds : List Plant.Datum}
    {cause : Cause} (h : misfit? kind index ds = some cause) : cause.isCheck := by
  induction ds generalizing index with
  | nil => cases h
  | cons d ds ih =>
    rw [misfit?] at h
    split at h
    next => cases h; rfl
    next =>
      split at h
      next => exact ih h
      next => cases h; rfl

theorem Plant.Datum.array?_failsInCheck (kind : Plant.Kind) (ds : List Plant.Datum) :
    FailsInCheck (array? kind ds) := by
  unfold array?
  split
  next => exact .of_eq_ok rfl
  next h => exact .error (isCheck_of_misfit? h)

theorem Plant.Record.push_failsInCheck (rec : Plant.Record) (name : String) (d : Plant.Datum) :
    FailsInCheck (rec.push name d) := by
  unfold push
  split
  next => exact .error rfl
  next => exact .of_eq_ok rfl

theorem Plant.Record.ofFields_failsInCheck (a : Plant.Address)
    (fields : List (String × Plant.Datum)) : FailsInCheck (ofFields a fields) :=
  .foldlM fun rec f => rec.push_failsInCheck f.1 f.2

end decode

section encode
open Plant

theorem Leaf.ofInt_failsUnfit {target : Builtin} (n : Int) (h : target.isInteger) :
    FailsUnfit (ofInt target n) := by
  intro f hf
  obtain ⟨-, rfl⟩ := (ofInt_eq_error_iff h).1 hf
  rfl

theorem Plant.Scalar.toLeaf_failsUnfit (s : Plant.Scalar) : FailsUnfit (s.toLeaf locale base) := by
  unfold toLeaf
  split <;> try first | exact .of_eq_ok rfl | exact .error rfl
  next => split <;> first | exact .of_eq_ok rfl | exact .error rfl

theorem Plant.Scalar.encode_failsUnfit (s : Plant.Scalar) : FailsUnfit (s.encode locale base) := by
  unfold encode
  split
  next => exact s.toLeaf_failsUnfit
  next n _ =>
    split
    next hinteger => exact Leaf.ofInt_failsUnfit n hinteger
    next => split <;> first | exact .of_eq_ok rfl | exact .error rfl

theorem Plant.Datum.encodeElement_failsUnfit {d : Datum} (h : d.isArray = false) :
    FailsUnfit (d.encodeElement locale base) := by
  cases d with
  | scalar s => exact s.encode_failsUnfit
  | address a =>
    rw [encodeElement]
    split
    next => exact a.toNodeId_failsUnfit.map
    next => exact .error rfl
  | record t fields => exact .error rfl
  | array kind ds => cases h

theorem Variant.isCheck_of_misfit? {t : Builtin} {index : Nat} {es : List Scalar} {cause : Cause}
    (h : misfit? t index es = some cause) : cause.isCheck := by
  induction es generalizing index with
  | nil => cases h
  | cons e es ih =>
    rw [misfit?] at h
    split at h
    next => exact ih h
    next => cases h; rfl

theorem Variant.array?_failsInCheck (t : Builtin) (es : List Scalar) :
    FailsInCheck (array? t es) := by
  unfold array?
  split
  next => exact .of_eq_ok rfl
  next h => exact .error (isCheck_of_misfit? h)

end encode
end UaBridge
