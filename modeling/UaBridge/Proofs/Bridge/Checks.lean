import UaBridge.Proofs.Bridge.Causes
import UaBridge.Proofs.Bridge.Elementwise
import UaBridge.Proofs.Bridge.Lookup
import UaBridge.Proofs.Construction
import UaBridge.Proofs.Schema.Outcomes

namespace UaBridge

variable {α β γ : Type} {type : NodeId} {base : Builtin} {locale : String}

open Plant in
/-- Causes of failures of the checks: what the constructors refuse, elements that are not of the
kind of their array, and a number that is written for a type without numbers. -/
inductive Cause.OfCheck : Cause → Prop
  | data {kind ds f} : Datum.array? kind ds = .error f → OfCheck f.cause
  | variants {t es f} : Variant.array? t es = .error f → OfCheck f.cause
  | push {rec : Record} {name d f} : rec.push name d = .error f → OfCheck f.cause
  | objectElement {object type leaf f} :
      Scalar.decodeElement object type (.leaf leaf) = .fail f → OfCheck f.cause
  | recordElement {record type d f} : d.form ≠ .record →
      Datum.encodeRecordElement record type d = .fail f → OfCheck f.cause
  | nested {locale target kind ds f} :
      Datum.encodeElement locale target (.array kind ds) = .error f → OfCheck f.cause
  | integer {target n f} : target.isInteger = false → Leaf.ofInt target n = .error f →
      OfCheck f.cause

theorem Cause.OfCheck.isCheck {cause : Cause} (h : cause.OfCheck) : cause.isCheck := by
  cases h with
  | data h => exact Plant.Datum.array?_failsInCheck _ _ _ h
  | variants h => exact Variant.array?_failsInCheck _ _ _ h
  | push h => exact Plant.Record.push_failsInCheck _ _ _ _ h
  | objectElement h => cases h; rfl
  | @recordElement _ _ d _ hform h =>
    cases d with
    | record t fields => exact absurd rfl hform
    | _ => cases h; rfl
  | nested h => cases h; rfl
  | @integer target n f hinteger h => cases target <;> cases hinteger <;> cases h <;> rfl

abbrev Inquiry.Passes (P : α → Prop) (q : Inquiry Failure α) : Prop :=
  q.Yields (·.isCheck = false) P

theorem FailsUnfit.passes {x : Except Failure α} {P : α → Prop} (h : FailsUnfit x)
    (hx : ∀ a, x = .ok a → P a) : (Inquiry.ofExcept x).Passes P :=
  .ofExcept (h.imp fun _ => Cause.isCheck_eq_false_of_isUnfit) hx

section scalar
open Plant

theorem Leaf.Image.isSound {leaf : Leaf} {d : Datum} (h : leaf.Image d) : d.IsSound := by
  cases h with
  | nodeId _ => exact Datum.isSound_address _
  | _ => exact Datum.isSound_scalar _

theorem Builtin.Reads.isSound {v : Variant} {d : Datum} (h : base.Reads v d) : d.IsSound := by
  cases h with
  | scalar _ himage => exact himage.isSound
  | array hbases himages =>
    have hkinds := Leaf.elementKind?_of_forall₂_image hbases himages
    refine Datum.isSound_array_iff.2 fun d hd => ⟨?_, hkinds d hd⟩
    exact forall_mem_right_of_forall₂ (himages.imp fun _ _ h => h.isSound) d hd

theorem Variant.decodeAs_passes (v : Variant) (base : Builtin) :
    (Inquiry.ofExcept (v.decodeAs base)).Passes Datum.IsSound :=
  v.decodeAs_failsUnfit.passes fun _ hd => (decodeAs_eq_ok_iff.1 hd).isSound

theorem Builtin.Writes.isSound {d : Datum} {v : Variant} (h : base.Writes locale d v) :
    v.IsSound := by
  cases h with
  | scalar _ => exact Variant.isSound_leaf _
  | array hleaves =>
    refine Variant.isSound_array ?_ ?_
    · exact List.forall_mem_map.2 (Datum.builtin_of_forall₂_encodeElement hleaves)
    · exact List.forall_mem_map.2 fun leaf _ => Variant.isSound_leaf leaf

theorem Plant.Datum.encodeAs_failsUnfit {d : Datum} (h : d.IsSound) :
    FailsUnfit (d.encodeAs locale base) := by
  obtain ⟨kind, ds, rfl⟩ | hd := d.array_or_single
  · rw [encodeAs_array]
    have hds := fun d hd => isArray_of_elementKind? (isSound_array_iff.1 h d hd).2
    refine (eachIndexed_failsOnly (fun _ _ he => he) fun d hd => ?_).map
    exact encodeElement_failsUnfit (hds d hd)
  · rw [encodeAs_of_isArray_eq_false hd]
    exact (encodeElement_failsUnfit hd).map

theorem Plant.Datum.encodeAs_passes {d : Datum} (h : d.IsSound) (locale : String)
    (base : Builtin) : (Inquiry.ofExcept (d.encodeAs locale base)).Passes Variant.IsSound :=
  (encodeAs_failsUnfit h).passes fun _ hv => (encodeAs_eq_ok_iff.1 hv).isSound

end scalar

section binding
variable {defs : List Definition} {fields : List (String × β)} {bound : List (Binding β)}
  {shape : Shape} {chain : List NodeId} {c : Claims β}

def Binding.Points (b : Binding β) : Prop := b.definition.fields[b.index]? = some b.field

theorem Claims.points_of_binding? {offset : Nat} {d : Definition} {f : String × β} {b : Binding β}
    (h : binding? offset d f = some b) : b.Points := by
  simp only [binding?, Definition.slot?_eq, Option.map_map, Option.map_eq_some_iff] at h
  obtain ⟨field, hfield, rfl⟩ := h
  exact (Schema.getElem?_place d.fields f.1).trans hfield

structure Bound (fields : List (String × β)) (bound : List (Binding β)) : Prop where
  nodup : (fields.map (·.1)).Nodup
  binds : ∃ defs, BindsIn defs fields bound

namespace Bound

theorem points (h : Bound fields bound) : ∀ b ∈ bound, b.Points := by
  obtain ⟨-, defs, hbinds⟩ := h
  intro b hb
  obtain ⟨-, -, -, -, hfield⟩ := hbinds.lies b hb
  exact hfield

theorem mem (h : Bound fields bound) {b : Binding β} (hb : b ∈ bound) :
    (b.field.name, b.value) ∈ fields := by
  obtain ⟨-, defs, hbinds⟩ := h
  exact hbinds.each.subset (List.mem_map_of_mem hb)

theorem nodup_names (h : Bound fields bound) : (bound.map (·.field.name)).Nodup := by
  obtain ⟨hnodup, defs, hbinds⟩ := h
  have := (hbinds.each.map (·.1)).symm.nodup hnodup
  rwa [List.map_map] at this

end Bound

namespace Inquiry.Passes

theorem definitionOf : (definitionOf type).Passes fun _ => True := by
  intro answer
  cases answer <;> trivial

theorem supertypesOf : (supertypesOf type).Passes fun _ => True := by
  refine .bind (P := fun _ => True) (fun answer => by cases answer <;> trivial) fun chain _ => ?_
  split
  next => exact rfl
  next => exact trivial

theorem baseKindOf : (baseKindOf type).Passes fun _ => True := by
  unfold UaBridge.baseKindOf
  split
  next => split <;> trivial
  next =>
    refine supertypesOf.bind fun chain _ => ?_
    split
    next => exact rfl
    next => split <;> trivial

theorem inherit (h : ∃ defs, c.Consulted defs fields) :
    (c.inherit type shape chain).Passes fun c' => ∃ defs, c'.Consulted defs fields := by
  induction chain generalizing c with
  | nil => exact .done h
  | cons a chain ih =>
    rw [Claims.inherit]
    split
    next => exact .done h
    next =>
      split
      next => exact ih h
      next =>
        refine definitionOf.bind fun d _ => ?_
        obtain ⟨defs, h⟩ := h
        have hadd : ∃ defs, (c.add d).Consulted defs fields := ⟨_, h.add d⟩
        split
        next => exact (Yields.report _).bind fun _ _ => ih hadd
        next => exact ih hadd

theorem finish (hnodup : (fields.map (·.1)).Nodup) (h : ∃ defs, c.Consulted defs fields) :
    (c.finish type shape).Passes (Bound fields) := by
  unfold Claims.finish
  split
  next => exact rfl
  next => exact rfl
  next hpending _ =>
    obtain ⟨defs, h⟩ := h
    exact .done ⟨hnodup, defs, h.bindsIn_sorted hnodup hpending⟩

theorem bindFields {d : Definition} : (bindFields type d fields).Passes (Bound fields) := by
  unfold UaBridge.bindFields
  split
  next => exact rfl
  next =>
    split
    next => exact rfl
    next hrepeat =>
      have hnodup := firstRepeat?_eq_none_iff.1 hrepeat
      have hown : ∃ defs, ((Claims.start fields).add d).Consulted defs fields :=
        ⟨_, (Claims.consulted_start fields).add d⟩
      simp only
      split
      next => exact finish hnodup hown
      next =>
        exact supertypesOf.bind fun chain _ => (inherit hown).bind fun c hc => finish hnodup hc

theorem convert {depth : Nat} {isArray : β → Bool} {convert : β → NodeId → Inquiry Failure γ}
    {P : γ → Prop} {b : Binding β} (h : (convert b.value b.field.type).Passes P) :
    (b.convert depth isArray convert).Passes fun g => b.field.name = g.1 ∧ P g.2 := by
  have harray := (checkArray_failsUnfit (isArray b.value) b.field).passes fun _ _ => trivial
  exact .bind (.report _) fun _ _ =>
    .bind (.within (harray.bind fun _ _ => h) _) fun c hc => .done ⟨rfl, hc⟩

theorem mapM_convert {depth : Nat} {isArray : β → Bool} {convert : β → NodeId → Inquiry Failure γ}
    {P : γ → Prop} (hbound : Bound fields bound)
    (h : ∀ f ∈ fields, ∀ type, (convert f.2 type).Passes P) :
    (bound.mapM (Binding.convert depth isArray convert)).Passes fun converted =>
      (converted.map (·.1)).Nodup ∧ ∀ g ∈ converted, P g.2 := by
  have heach : ∀ b ∈ bound, (b.convert depth isArray convert).Passes fun g =>
      b.field.name = g.1 ∧ P g.2 :=
    fun b hb => Passes.convert (h _ (hbound.mem hb) b.field.type)
  refine (Yields.mapM heach).imp fun converted hconverted => ?_
  have hnames : bound.map (·.field.name) = converted.map (·.1) := by
    rw [← List.forall₂_eq_eq_eq, List.forall₂_map_left_iff, List.forall₂_map_right_iff]
    exact hconverted.imp fun _ _ h => h.1
  exact ⟨hnames ▸ hbound.nodup_names,
    forall_mem_right_of_forall₂ (hconverted.imp fun _ _ h => h.2)⟩

end Inquiry.Passes
end binding

section decode
open Plant

theorem Variant.decodeWith_passes {object : ExtensionObject → NodeId → Inquiry Failure Record}
    (hobject : ∀ (o : ExtensionObject) type, (∀ f ∈ o.body.toList, f.2.Made) →
      (object o type).Passes (·.toDatum.IsSound)) {v : Variant} (hv : v.Made) (type : NodeId) :
    (v.decodeWith object type).Passes Datum.IsSound := by
  refine Inquiry.Passes.baseKindOf.bind fun kind _ => ?_
  cases kind with
  | value base => exact v.decodeAs_passes base
  | structured shape =>
    simp only
    split
    next t body => exact (hobject _ type (made_object_iff.1 hv)).bind fun rec hrec => .done hrec
    next es =>
      have heach : ∀ e ∈ es, (e.decodeElement object type).Passes (·.toDatum.IsSound) := by
        intro e he
        obtain ⟨hmade, hbuiltin⟩ := made_array_iff.1 hv e he
        obtain ⟨t, body, rfl⟩ := Scalar.exists_object_of_builtin hbuiltin
        exact hobject _ type (made_object_iff.1 hmade)
      refine (Inquiry.Yields.eachIndexed heach).bind fun recs hrecs => ?_
      have hsound : ∀ d ∈ recs.map Record.toDatum, d.IsSound :=
        List.forall_mem_map.2 (forall_mem_right_of_forall₂ hrecs)
      have hkinds : ∀ d ∈ recs.map Record.toDatum, d.elementKind? = some .record := by
        simp [Record.toDatum, Datum.elementKind?]
      rw [Datum.array?_eq_ok_iff.2 ⟨hkinds, rfl⟩]
      exact .done (Datum.isSound_array_iff.2 fun d hd => ⟨hsound d hd, hkinds d hd⟩)
    next => exact rfl

theorem ExtensionObject.decode_passes {limit room : Nat} (o : ExtensionObject) (type : NodeId)
    (ho : ∀ f ∈ o.body.toList, f.2.Made) :
    (decode limit room o type).Passes (·.toDatum.IsSound) := by
  induction room generalizing o type with
  | zero => exact rfl
  | succ room ih =>
    -- Fields of the object are constructed values, too, and are one level further in.
    refine Inquiry.Passes.definitionOf.bind fun d _ => ?_
    split
    next => exact rfl
    next =>
      refine .bind (.report _) fun _ _ => Inquiry.Passes.bindFields.bind fun bound hbound => ?_
      refine (type.toAddress_failsUnfit.passes fun _ _ => trivial).bind fun a _ => ?_
      have hconvert : ∀ f ∈ o.body.toList, ∀ type,
          (f.2.decodeWith (decode limit room) type).Passes Datum.IsSound :=
        fun f hf => Variant.decodeWith_passes ih (ho f hf)
      refine (Inquiry.Passes.mapM_convert hbound hconvert).bind fun fields hfields => ?_
      rw [Record.ofFields_eq_ok_iff.2 ⟨hfields.1, rfl⟩]
      exact .done (Datum.isSound_record_iff.2 hfields)

theorem Variant.decode_passes (s : Settings) {v : Variant} (hv : v.Made) (type : NodeId) :
    (v.decode s type).Passes Datum.IsSound := by
  refine (decodeWith_passes ExtensionObject.decode_passes hv type).bind fun d hd => ?_
  split
  next => exact hd
  next => exact hd

theorem DataValue.toReading_passes (s : Settings) {v : DataValue}
    (hv : ∀ value ∈ v.value, value.Made) :
    (v.toReading s).Passes fun reading => ∀ d ∈ reading.value, d.IsSound := by
  refine (v.node.toAddress_failsUnfit.passes fun _ _ => trivial).bind fun address _ => ?_
  split
  next => exact .done (by simp)
  next value hvalue =>
    refine ((Variant.decode_passes s (hv value hvalue) v.type).within _).bind fun d hd => ?_
    exact .done (by simpa using hd)

theorem Plant.Event.ofDataValues_passes (s : Settings) (dateTime : Int64) {values : List DataValue}
    (hvalues : ∀ v ∈ values, ∀ value ∈ v.value, value.Made) :
    (ofDataValues s dateTime values).Passes fun event =>
      ∀ reading ∈ event.readings, ∀ d ∈ reading.value, d.IsSound := by
  refine (Inquiry.Yields.mapM fun v hv => DataValue.toReading_passes s (hvalues v hv)).bind
    fun readings hreadings => ?_
  exact .bind (.report _) fun _ _ => .done (forall_mem_right_of_forall₂ hreadings)

end decode

section encode
open Plant

theorem Plant.Datum.encodeWith_passes
    {record : Record → NodeId → Inquiry Failure ExtensionObject}
    (hrecord : ∀ (rec : Record) type, rec.toDatum.IsSound →
      (record rec type).Passes fun o => (Variant.scalar o.toScalar).IsSound)
    {d : Datum} (hd : d.IsSound) (type : NodeId) :
    (d.encodeWith locale record type).Passes Variant.IsSound := by
  refine Inquiry.Passes.baseKindOf.bind fun kind _ => ?_
  cases kind with
  | value base => exact encodeAs_passes hd locale base
  | structured shape =>
    simp only
    split
    next t fields => exact (hrecord ⟨t, fields⟩ type hd).bind fun o ho => .done ho
    next ds =>
      have heach : ∀ d ∈ ds, (d.encodeRecordElement record type).Passes fun o =>
          (Variant.scalar o.toScalar).IsSound := by
        intro d hmem
        obtain ⟨hsound, hkind⟩ := isSound_array_iff.1 hd d hmem
        obtain ⟨t, fields, rfl⟩ := exists_record_of_elementKind? hkind
        exact hrecord ⟨t, fields⟩ type hsound
      refine (Inquiry.Yields.eachIndexed heach).bind fun objects hobjects => ?_
      have hsound : ∀ e ∈ objects.map ExtensionObject.toScalar, (Variant.scalar e).IsSound :=
        List.forall_mem_map.2 (forall_mem_right_of_forall₂ hobjects)
      have hbuiltin : ∀ e ∈ objects.map ExtensionObject.toScalar, e.builtin = .extensionObject := by
        simp [ExtensionObject.toScalar, Scalar.builtin]
      rw [Variant.array?_eq_ok_iff.2 ⟨hbuiltin, rfl⟩]
      exact .done (Variant.isSound_array hbuiltin hsound)
    next => exact rfl

theorem Plant.Record.encode_passes {limit room : Nat} (rec : Record) (type : NodeId)
    (hrec : rec.toDatum.IsSound) : (encode locale limit room rec type).Passes fun o =>
      (Variant.scalar o.toScalar).IsSound := by
  induction room generalizing rec type with
  | zero => exact rfl
  | succ room ih =>
    have hconvert : ∀ f ∈ rec.fields, ∀ type,
        (f.2.encodeWith locale (encode locale limit room) type).Passes Variant.IsSound :=
      fun f hf => Datum.encodeWith_passes ih ((Datum.isSound_record_iff.1 hrec).2 f hf)
    refine Inquiry.Passes.definitionOf.bind fun d _ => .bind (.report _) fun _ _ => ?_
    refine Inquiry.Passes.bindFields.bind fun bound hbound => ?_
    refine (Inquiry.Passes.mapM_convert hbound hconvert).bind fun converted ⟨hnodup, hsound⟩ =>
      .done ?_
    cases d.shape with
    | record => exact Variant.isSound_object hnodup hsound
    | union =>
      -- Of the fields that were converted a union has the last one.
      cases hlast : converted.getLast? with
      | none => exact Variant.isSound_object List.nodup_nil nofun
      | some f =>
        refine Variant.isSound_object (List.nodup_singleton _) ?_
        exact List.forall_mem_singleton.2 (hsound f (List.mem_of_getLast? hlast))

theorem Plant.Datum.encode_passes (s : Settings) {d : Datum} (hd : d.IsSound) (type : NodeId) :
    (d.encode s type).Passes Variant.IsSound := by
  refine (encodeWith_passes Record.encode_passes hd type).bind fun v hv => ?_
  split
  next => exact hv
  next => exact hv

theorem Plant.Reading.toDataValue_passes (s : Settings) {reading : Reading}
    (hreading : ∀ d ∈ reading.value, d.IsSound) (type : NodeId) :
    (reading.toDataValue s type).Passes fun v => ∀ value ∈ v.value, value.IsSound := by
  refine (reading.address.toNodeId_failsUnfit.passes fun _ _ => trivial).bind fun node _ => ?_
  split
  next => exact .done (by simp)
  next d hvalue =>
    refine ((Datum.encode_passes s (hreading d hvalue) type).within _).bind fun v hv => ?_
    exact .done (by simpa using hv)

end encode

/-- What comes of a run has the property `P`, or it is a failure of none of the checks. -/
structure Inquiry.Consistent {σ : Type} (b : Backend σ) (s : σ) (P : α → Prop)
    (q : Inquiry Failure α) : Prop where
  result : ∀ a, (q.run b s).1 = .ok a → P a
  failure : ∀ f, (q.run b s).1 = .error f → ¬f.cause.OfCheck

theorem Inquiry.Passes.consistent {σ : Type} {b : Backend σ} {s : σ} {P : α → Prop}
    {q : Inquiry Failure α} (h : q.Passes P) : q.Consistent b s P where
  result := h.run.1
  failure f hf hcheck := nomatch hcheck.isCheck.symm.trans (h.run.2 f hf)

/-- The checks of what has been converted never fail: if values have been constructed, conversions
of them do not fail for a cause that is a check's, whatever the type source answers. Every part of a
result obeys the rules of its constructor, and every binding has the index of its field. -/
theorem conversions_pass_checks {σ : Type} (b : Backend σ) (state : σ) (s : Settings)
    (type : NodeId) :
    (∀ v : Variant, v.Made → (v.decode s type).Consistent b state Plant.Datum.IsSound) ∧
      (∀ d : Plant.Datum, d.Made → (d.encode s type).Consistent b state Variant.IsSound) ∧
      (∀ (v : Variant) base,
        (Inquiry.ofExcept (v.decodeAs base)).Consistent b state Plant.Datum.IsSound) ∧
      (∀ d : Plant.Datum, d.Made → ∀ locale base,
        (Inquiry.ofExcept (d.encodeAs locale base)).Consistent b state Variant.IsSound) ∧
      (∀ v : DataValue, (∀ value ∈ v.value, value.Made) →
        (v.toReading s).Consistent b state fun reading => ∀ d ∈ reading.value, d.IsSound) ∧
      (∀ reading : Plant.Reading, (∀ d ∈ reading.value, d.Made) →
        (reading.toDataValue s type).Consistent b state fun v => ∀ value ∈ v.value, value.IsSound) ∧
      (∀ dateTime (values : List DataValue), (∀ v ∈ values, ∀ value ∈ v.value, value.Made) →
        (Plant.Event.ofDataValues s dateTime values).Consistent b state fun event =>
          ∀ reading ∈ event.readings, ∀ d ∈ reading.value, d.IsSound) ∧
      (∀ (β : Type) (d : Definition) (fields : List (String × β)),
        (bindFields type d fields).Consistent b state fun bound => ∀ x ∈ bound, x.Points) ∧
      ∀ (β : Type) offset d (f : String × β) x, Claims.binding? offset d f = some x → x.Points := by
  refine ⟨fun v hv => ?_, fun d hd => ?_, fun v base => ?_, fun d hd locale base => ?_,
    fun v hv => ?_, fun reading hreading => ?_, fun dateTime values hvalues => ?_,
    fun β d fields => ?_, fun β offset d f x hx => ?_⟩
  · exact (Variant.decode_passes s hv type).consistent
  · exact (Plant.Datum.encode_passes s hd.isSound type).consistent
  · exact (v.decodeAs_passes base).consistent
  · exact (Plant.Datum.encodeAs_passes hd.isSound locale base).consistent
  · exact (DataValue.toReading_passes s hv).consistent
  · exact (Plant.Reading.toDataValue_passes s (fun d hd => (hreading d hd).isSound) type).consistent
  · exact (Plant.Event.ofDataValues_passes s dateTime hvalues).consistent
  · exact Inquiry.Passes.consistent (Inquiry.Passes.bindFields.imp fun _ hbound => hbound.points)
  · exact Claims.points_of_binding? hx

namespace Tank

theorem made_value : value.Made := by
  simp [value, Variant.made_object_iff, Variant.made_array_iff, Variant.made_leaf, Body.toList,
    Scalar.builtin, Leaf.builtin]

theorem made_image : image.Made := by
  simp [image, Plant.Datum.made_iff, Plant.Datum.isSound_record_iff, Plant.Datum.isSound_array_iff,
    Plant.Datum.isSound_scalar, Plant.Datum.elementKind?, Plant.Scalar.kind]

end Tank

theorem conversions_pass_checks_tank :
    ((Tank.value.decode .standard Tank.tank).run Tank.types.journaled []).1 = .ok Tank.image ∧
      Tank.image.IsSound ∧
      ((Tank.image.encode .standard Tank.tank).run Tank.types.journaled []).1 =
        .ok (Tank.value.canonical Tank.types Tank.tank) ∧
      (Tank.value.canonical Tank.types Tank.tank).IsSound ∧
      (Inquiry.ofExcept (Tank.image.encodeAs "en" .string)).Consistent Tank.types.journaled []
        Variant.IsSound ∧
      (DataValue.toReading .standard ⟨.numeric 1 7, Tank.tank, some Tank.value⟩).Consistent
        Tank.types.journaled [] (fun reading => ∀ d ∈ reading.value, d.IsSound) ∧
      (Plant.Reading.toDataValue .standard ⟨.numeric 1 7, some Tank.image⟩ Tank.tank).Consistent
        Tank.types.journaled [] (fun v => ∀ value ∈ v.value, value.IsSound) ∧
      (Plant.Event.ofDataValues .standard 0 [⟨.numeric 1 7, Tank.tank, some Tank.value⟩]).Consistent
        Tank.types.journaled []
        (fun event => ∀ reading ∈ event.readings, ∀ d ∈ reading.value, d.IsSound) ∧
      (⟨1, Pump.pump, 1, ⟨"name", Builtin.string.typeId, false, true⟩, 1⟩ : Binding Nat).Points := by
  obtain ⟨hdecode, hencode, -, hscalar, hreading, hvalue, hevent, -, hbinding⟩ :=
    conversions_pass_checks Tank.types.journaled [] .standard Tank.tank
  have himage :
      ((Tank.value.decode .standard Tank.tank).run Tank.types.journaled []).1 =
        .ok Tank.image :=
    (Inquiry.fst_run_journaled _ _ _).trans Tank.decode_value
  have hback :
      ((Tank.image.encode .standard Tank.tank).run Tank.types.journaled []).1 =
        .ok (Tank.value.canonical Tank.types Tank.tank) :=
    (Inquiry.fst_run_journaled _ _ _).trans Tank.encode_image
  have hsome : ∀ value ∈ some Tank.value, value.Made := by simp [Tank.made_value]
  refine ⟨himage, (hdecode _ Tank.made_value).result _ himage, hback,
    (hencode _ Tank.made_image).result _ hback, hscalar _ Tank.made_image _ _, hreading _ hsome,
    hvalue _ ?_, hevent _ _ ?_, ?_⟩
  · simp [Tank.made_image]
  · exact List.forall_mem_singleton.2 hsome
  · exact hbinding Nat 0 Pump.pump ("name", 1) _ (by cbv)

end UaBridge
