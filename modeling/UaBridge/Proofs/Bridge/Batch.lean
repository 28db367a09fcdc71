import UaBridge.Proofs.Bridge.Canonical
import UaBridge.Proofs.Bridge.Identifier

namespace UaBridge

variable {r : Resolver} {s : Settings}

theorem DataValue.toReading_eval_eq_ok_iff {v : DataValue} {reading : Plant.Reading} :
    (v.toReading s).eval r = .ok reading ↔
      v.node.HasAddress reading.address ∧
        Option.Rel (fun value d => (value.decode s v.type).eval r = .ok d)
          v.value reading.value := by
  obtain ⟨node, type, value⟩ := v
  obtain ⟨address, d⟩ := reading
  simp only [toReading, Inquiry.eval_bind, Inquiry.eval_ofExcept, Except.bind_eq_ok_iff,
    NodeId.toAddress_eq_ok_iff]
  cases value with
  | none => cases d <;> simp
  | some value =>
    simp only [Inquiry.eval_bind, Inquiry.eval_within, Except.bind_eq_ok_iff,
      Except.mapError_eq_ok_iff]
    cases d <;> simp

theorem Plant.Reading.toDataValue_eval_eq_ok_iff {reading : Reading} {type : NodeId}
    {v : DataValue} :
    (reading.toDataValue s type).eval r = .ok v ↔
      v.type = type ∧ v.node.HasAddress reading.address ∧
        Option.Rel (fun d value => (d.encode s type).eval r = .ok value) reading.value v.value := by
  obtain ⟨address, d⟩ := reading
  obtain ⟨node, type', value⟩ := v
  simp only [toDataValue, Inquiry.eval_bind, Inquiry.eval_ofExcept, Except.bind_eq_ok_iff,
    Plant.Address.toNodeId_eq_ok_iff]
  cases d with
  | none => cases value <;> simp [and_comm, eq_comm]
  | some d =>
    simp only [Inquiry.eval_bind, Inquiry.eval_within, Except.bind_eq_ok_iff,
      Except.mapError_eq_ok_iff]
    cases value with
    | none => simp
    | some value => simp [and_comm, and_assoc, and_left_comm, eq_comm]

def DataValue.canonical (r : Resolver) (v : DataValue) : DataValue :=
  { v with value := v.value.map (·.canonical r v.type) }

theorem DataValue.toDataValue_of_toReading {v : DataValue} {reading : Plant.Reading}
    (h : (v.toReading s).eval r = .ok reading) :
    (reading.value.isSome ↔ v.value.isSome) ∧
      (reading.toDataValue s v.type).eval r = .ok (v.canonical r) := by
  obtain ⟨haddress, hvalue⟩ := toReading_eval_eq_ok_iff.1 h
  obtain ⟨node, type, value⟩ := v
  obtain ⟨address, d⟩ := reading
  rw [Plant.Reading.toDataValue_eval_eq_ok_iff]
  cases hvalue with
  | none => exact ⟨Iff.rfl, rfl, haddress, .none⟩
  | some hdecode =>
    -- A value that is read has a type, and so its canonical form is what is written.
    have htyped := (Variant.decode_eval_eq_ok_iff s).1 hdecode
    have hencode := (Plant.Datum.encode_eval_eq_ok_iff s).2 htyped.written
    exact ⟨Iff.rfl, rfl, haddress, .some hencode⟩

namespace Plant.Event

variable {dateTime : Int64} {values : List DataValue}

theorem ofDataValues_eval_eq :
    (ofDataValues s dateTime values).eval r =
      (values.mapM fun v => (DataValue.toReading s v).eval r).map (attach dateTime) := by
  rw [ofDataValues, Inquiry.eval_bind, Inquiry.eval_mapM]
  cases values.mapM fun v => (DataValue.toReading s v).eval r <;> rfl

theorem ofDataValues_eval_eq_ok_iff {e : Event} :
    (ofDataValues s dateTime values).eval r = .ok e ↔
      ∃ readings, values.mapM (fun v => (DataValue.toReading s v).eval r) = .ok readings ∧
        attach dateTime readings = e := by
  rw [ofDataValues_eval_eq, Except.map_eq_ok_iff]

theorem ofDataValues_eval_eq_error_iff {f : Failure} :
    (ofDataValues s dateTime values).eval r = .error f ↔
      values.mapM (fun v => (DataValue.toReading s v).eval r) = .error f := by
  rw [ofDataValues_eval_eq, Except.map_eq_error_iff]

/-- A batch is read when each of its values is: in their order, each reading to be written as the
value that it comes from. Otherwise the first value that cannot be read says why. -/
theorem ofDataValues_all_or_nothing (r : Resolver) (s : Settings) (dateTime : Int64)
    (values : List DataValue) :
    ((∃ e, (ofDataValues s dateTime values).eval r = .ok e) ↔
        ∀ v ∈ values, ∃ reading, (v.toReading s).eval r = .ok reading) ∧
      (∀ e, (ofDataValues s dateTime values).eval r = .ok e →
        e.dateTime = dateTime ∧ e.attached = true ∧
          List.Forall₂
            (fun v reading => (v.toReading s).eval r = .ok reading ∧
              (reading.value.isSome ↔ v.value.isSome) ∧
              (reading.toDataValue s v.type).eval r = .ok (v.canonical r))
            values e.readings) ∧
      ∀ f, (ofDataValues s dateTime values).eval r = .error f →
        ∃ before v after, values = before ++ v :: after ∧
          (∀ w ∈ before, ∃ reading, (w.toReading s).eval r = .ok reading) ∧
          (v.toReading s).eval r = .error f := by
  refine ⟨?_, fun e he => ?_, fun f hf => ?_⟩
  · rw [← Except.exists_mapM_eq_ok_iff]
    simp [ofDataValues_eval_eq_ok_iff]
  · obtain ⟨readings, hreadings, rfl⟩ := ofDataValues_eval_eq_ok_iff.1 he
    refine ⟨rfl, rfl, (Except.mapM_eq_ok_iff.1 hreadings).imp fun v reading h => ?_⟩
    exact ⟨h, v.toDataValue_of_toReading h⟩
  · exact Except.exists_first_of_mapM_eq_error (ofDataValues_eval_eq_error_iff.1 hf)

end Plant.Event
end UaBridge
