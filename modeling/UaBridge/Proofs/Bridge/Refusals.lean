import UaBridge.Bridge.Batch
import UaBridge.Proofs.Bridge.Causes
import UaBridge.Proofs.Schema.Refusals

namespace UaBridge

variable {α β γ : Type} {type : NodeId} {base : Builtin} {locale : String}

abbrev FailsLocally (x : Except Failure α) : Prop := x.FailsOnly (·.source? = none)

theorem Cause.source?_eq_none_of_isUnfit {cause : Cause} (h : cause.isUnfit) :
    (Failure.of cause).source? = none := by
  cases cause <;> first | rfl | cases h

theorem Cause.source?_eq_none_of_isCheck {cause : Cause} (h : cause.isCheck) :
    (Failure.of cause).source? = none := by
  cases cause <;> first | rfl | cases h

theorem FailsUnfit.failsLocally {x : Except Failure α} (h : FailsUnfit x) : FailsLocally x :=
  h.imp fun _ => Cause.source?_eq_none_of_isUnfit

theorem FailsInCheck.failsLocally {x : Except Failure α} (h : FailsInCheck x) : FailsLocally x :=
  h.imp fun _ => Cause.source?_eq_none_of_isCheck

theorem Plant.Datum.encodeElement_failsLocally (d : Plant.Datum) :
    FailsLocally (d.encodeElement locale base) := by
  cases d with
  | array kind ds => exact .error rfl
  | _ => exact (encodeElement_failsUnfit rfl).failsLocally

theorem Plant.Datum.encodeAs_failsLocally (d : Plant.Datum) :
    FailsLocally (d.encodeAs locale base) := by
  obtain ⟨kind, ds, rfl⟩ | hd := d.array_or_single
  · rw [encodeAs_array]
    exact (eachIndexed_failsOnly (fun _ _ he => he) fun d _ => d.encodeElement_failsLocally).map
  · rw [encodeAs_of_isArray_eq_false hd]
    exact d.encodeElement_failsLocally.map

namespace Inquiry.Relays

theorem definitionOf : (definitionOf type).Relays := ⟨fun d => done d, fun _ => ⟨_, rfl, rfl⟩⟩

theorem supertypesOf : (supertypesOf type).Relays := by
  refine .bind ⟨fun chain => done chain, fun _ => ⟨_, rfl, rfl⟩⟩ fun chain => ?_
  split
  next => exact rfl
  next => exact done chain

theorem baseKindOf : (baseKindOf type).Relays := by
  unfold UaBridge.baseKindOf
  split
  next =>
    split
    next kind _ => exact done kind
    next => exact rfl
  next =>
    refine supertypesOf.bind fun chain => ?_
    split
    next => exact rfl
    next =>
      split
      next kind _ => exact done kind
      next => exact rfl

theorem inherit {shape : Shape} {chain : List NodeId} {c : Claims β} :
    (c.inherit type shape chain).Relays := by
  induction chain generalizing c with
  | nil => exact done c
  | cons a chain ih =>
    rw [Claims.inherit]
    split
    next => exact done c
    next =>
      split
      next => exact ih
      next =>
        refine definitionOf.bind fun d => ?_
        split
        next => exact (report _).bind fun _ => ih
        next => exact ih

theorem finish {shape : Shape} {c : Claims β} : (c.finish type shape).Relays := by
  unfold Claims.finish
  split
  next => exact rfl
  next => exact rfl
  next => exact done _

theorem bindFields {d : Definition} {fields : List (String × β)} :
    (bindFields type d fields).Relays := by
  unfold UaBridge.bindFields
  split
  next => exact rfl
  next =>
    split
    next => exact rfl
    next =>
      simp only
      split
      next => exact finish
      next => exact supertypesOf.bind fun chain => inherit.bind fun c => finish

theorem convert {depth : Nat} {isArray : β → Bool} {convert : β → NodeId → Inquiry Failure γ}
    (h : ∀ b type, (convert b type).Relays) (b : Binding β) :
    (b.convert depth isArray convert).Relays := by
  refine (report _).bind fun _ => .bind (.within (.bind ?_ fun _ => h _ _) _) fun c => done _
  exact .ofExcept (checkArray_failsUnfit _ _).failsLocally

end Inquiry.Relays

theorem Variant.decodeWith_relays
    {object : ExtensionObject → NodeId → Inquiry Failure Plant.Record}
    (hobject : ∀ o type, (object o type).Relays) (v : Variant) (type : NodeId) :
    (v.decodeWith object type).Relays := by
  refine Inquiry.Relays.baseKindOf.bind fun kind => ?_
  cases kind with
  | value base => exact .ofExcept v.decodeAs_failsUnfit.failsLocally
  | structured shape =>
    simp only
    split
    next t body => exact (hobject _ type).bind fun rec => .done _
    next es =>
      refine .bind (.eachIndexed fun e => ?_) fun records =>
        .ofExcept (Plant.Datum.array?_failsInCheck _ _).failsLocally
      cases e with
      | leaf leaf => exact rfl
      | object t body => exact hobject _ type
    next => exact rfl

theorem ExtensionObject.decode_relays {limit room : Nat} (o : ExtensionObject) (type : NodeId) :
    (decode limit room o type).Relays := by
  induction room generalizing o type with
  | zero => exact rfl
  | succ room ih =>
    refine Inquiry.Relays.definitionOf.bind fun d => ?_
    split
    next => exact rfl
    next =>
      refine .bind (.report _) fun _ => Inquiry.Relays.bindFields.bind fun bound => ?_
      refine .bind (.ofExcept type.toAddress_failsUnfit.failsLocally) fun a => .bind (.mapM ?_) fun fields =>
        .ofExcept (Plant.Record.ofFields_failsInCheck a fields).failsLocally
      exact Inquiry.Relays.convert (Variant.decodeWith_relays ih)

theorem Variant.decode_relays (s : Settings) (v : Variant) (type : NodeId) :
    (v.decode s type).Relays := by
  refine (v.decodeWith_relays ExtensionObject.decode_relays type).bind fun d => ?_
  split
  next => exact trivial
  next => exact trivial

theorem Plant.Datum.encodeWith_relays
    {record : Record → NodeId → Inquiry Failure ExtensionObject}
    (hrecord : ∀ rec type, (record rec type).Relays) (d : Datum) (type : NodeId) :
    (d.encodeWith locale record type).Relays := by
  refine Inquiry.Relays.baseKindOf.bind fun kind => ?_
  cases kind with
  | value base => exact .ofExcept d.encodeAs_failsLocally
  | structured shape =>
    simp only
    split
    next t fields => exact (hrecord _ type).bind fun o => .done _
    next ds =>
      refine .bind (.eachIndexed fun d => ?_) fun objects =>
        .ofExcept (Variant.array?_failsInCheck _ _).failsLocally
      cases d with
      | record t fields => exact hrecord _ type
      | _ => exact rfl
    next => exact rfl

theorem Plant.Record.encode_relays {limit room : Nat} (rec : Record) (type : NodeId) :
    (encode locale limit room rec type).Relays := by
  induction room generalizing rec type with
  | zero => exact rfl
  | succ room ih =>
    refine Inquiry.Relays.definitionOf.bind fun d => .bind (.report _) fun _ => ?_
    refine Inquiry.Relays.bindFields.bind fun bound => .bind (.mapM ?_) fun fields => .done _
    exact Inquiry.Relays.convert (Datum.encodeWith_relays ih)

theorem Plant.Datum.encode_relays (s : Settings) (d : Datum) (type : NodeId) :
    (d.encode s type).Relays := by
  refine (d.encodeWith_relays Record.encode_relays type).bind fun v => ?_
  split
  next => exact trivial
  next => exact trivial

theorem DataValue.toReading_relays (s : Settings) (v : DataValue) : (v.toReading s).Relays := by
  refine .bind (.ofExcept v.node.toAddress_failsUnfit.failsLocally) fun address => ?_
  split
  next => exact trivial
  next value _ => exact ((value.decode_relays s v.type).within _).bind fun d => .done _

theorem Plant.Reading.toDataValue_relays (s : Settings) (reading : Reading) (type : NodeId) :
    (reading.toDataValue s type).Relays := by
  refine .bind (.ofExcept reading.address.toNodeId_failsUnfit.failsLocally) fun node => ?_
  split
  next => exact trivial
  next d _ => exact ((d.encode_relays s type).within _).bind fun v => .done _

theorem Plant.Event.ofDataValues_relays (s : Settings) (dateTime : Int64)
    (values : List DataValue) : (ofDataValues s dateTime values).Relays :=
  .bind (.mapM (DataValue.toReading_relays s)) fun _ => .bind (.report _) fun _ => .done _

/-- Conversions fail with what the type source refuses, whatever its state and wherever in the value
it is asked; failures of other reasons do not mention the source. -/
theorem conversions_tell_refusals {σ : Type} (b : Backend σ) (state : σ) (s : Settings)
    (type : NodeId) :
    (∀ v : Variant, (v.decode s type).TellsRefusals b state) ∧
      (∀ d : Plant.Datum, (d.encode s type).TellsRefusals b state) ∧
      (∀ v : DataValue, (v.toReading s).TellsRefusals b state) ∧
      (∀ reading : Plant.Reading, (reading.toDataValue s type).TellsRefusals b state) ∧
      ∀ dateTime values, (Plant.Event.ofDataValues s dateTime values).TellsRefusals b state :=
  ⟨fun v => (v.decode_relays s type).tellsRefusals, fun d => (d.encode_relays s type).tellsRefusals,
    fun v => (v.toReading_relays s).tellsRefusals,
    fun reading => (reading.toDataValue_relays s type).tellsRefusals,
    fun dateTime values => (Plant.Event.ofDataValues_relays s dateTime values).tellsRefusals⟩

end UaBridge
