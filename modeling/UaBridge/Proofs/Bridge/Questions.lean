import UaBridge.Proofs.Bridge.Fields
import UaBridge.Proofs.Schema.Questions
import UaBridge.Bridge.Batch

namespace UaBridge

variable {α β γ : Type} {r : Resolver} {P : Query → Prop} {type : NodeId} {d : Definition}

namespace Resolver

/-- `P` holds of what can be asked about the types in `K`, and fields lead to no other types. -/
structure Covered (r : Resolver) (P : Query → Prop) (K : NodeId → Prop) : Prop where
  base : ∀ type, K type → type.isStandard = false → P (.supertypes type)
  supertypes : ∀ type shape, K type → r.HasBase type (.structured shape) → P (.supertypes type)
  definition : ∀ type shape, K type → r.HasBase type (.structured shape) →
    ∀ a ∈ type :: r.ancestors type, P (.definition a)
  field : ∀ type shape, K type → r.HasBase type (.structured shape) →
    ∀ f ∈ r.schema type, K f.type

end Resolver

theorem definitionOf_asksOnly (h : P (.definition type)) : (definitionOf type).AsksOnly r P := by
  simpa [Inquiry.AsksOnly, definitionOf] using h

theorem supertypesOf_asksOnly (h : P (.supertypes type)) : (supertypesOf type).AsksOnly r P := by
  refine .bind (by simpa [Inquiry.AsksOnly] using h) fun chain _ => ?_
  split <;> exact .of_asked_eq_nil rfl

theorem baseKindOf_asksOnly (h : type.isStandard = false → P (.supertypes type)) :
    (baseKindOf type).AsksOnly r P := by
  unfold baseKindOf
  split
  next => split <;> exact .of_asked_eq_nil rfl
  next hstandard =>
    refine .bind (supertypesOf_asksOnly (h (by simpa using hstandard))) fun chain _ => ?_
    split
    next => exact .of_asked_eq_nil rfl
    next => split <;> exact .of_asked_eq_nil rfl

namespace Claims
variable {c : Claims β} {shape : Shape} {chain : List NodeId}

theorem inherit_asksOnly (h : ∀ a ∈ chain, a.isStandard = false → P (.definition a)) :
    (c.inherit type shape chain).AsksOnly r P := by
  induction chain generalizing c with
  | nil => exact .of_asked_eq_nil rfl
  | cons a chain ih =>
    rw [List.forall_mem_cons] at h
    rw [inherit]
    split
    next => exact .of_asked_eq_nil rfl
    next =>
      split
      next => exact ih h.2
      next hstandard =>
        refine .bind (definitionOf_asksOnly (h.1 (by simpa using hstandard))) fun d _ => ?_
        split
        next => exact .bind (.of_asked_eq_nil rfl) fun _ _ => ih h.2
        next => exact ih h.2

theorem finish_asksOnly : (c.finish type shape).AsksOnly r P := by
  unfold finish
  split <;> exact .of_asked_eq_nil rfl

end Claims

theorem bindFields_asksOnly {fields : List (String × β)} (hsupertypes : P (.supertypes type))
    (hancestors : ∀ a ∈ r.ancestors type, P (.definition a)) :
    (bindFields type d fields).AsksOnly r P := by
  unfold bindFields
  split
  next => exact .of_asked_eq_nil rfl
  next =>
    split
    next => exact .of_asked_eq_nil rfl
    next =>
      simp only
      split
      next => exact Claims.finish_asksOnly
      next =>
        refine .bind (supertypesOf_asksOnly hsupertypes) fun chain hchain => ?_
        have hchain := (supertypesOf_eval_eq_ok_iff.1 hchain).1
        rw [Resolver.ancestors_of_supertypes hchain] at hancestors
        refine .bind (Claims.inherit_asksOnly fun a ha hstandard => ?_) fun _ _ =>
          Claims.finish_asksOnly
        exact hancestors a (List.mem_filter.2 ⟨ha, by simp [hstandard]⟩)

theorem Schema.mem_of_slot? {s : Schema} {name : String} {field : Field}
    (h : s.slot? name = some field) : field ∈ s :=
  List.mem_of_find?_eq_some h

theorem field_mem_schema_of_bindFields {fields : List (String × β)} {bound : List (Binding β)}
    (hd : r.definition type = .ok d) (h : (bindFields type d fields).eval r = .ok bound) :
    ∀ b ∈ bound, b.field ∈ r.schema type := by
  intro b hb
  have hmem : b.taken ∈ (r.schema type).placed fields :=
    (fits_of_bindFields hd h).2 ▸ List.mem_map_of_mem hb
  obtain ⟨f, -, hslot, -⟩ := Schema.mem_placed_iff.1 hmem
  exact Schema.mem_of_slot? hslot

theorem Binding.convert_asksOnly {depth : Nat} {isArray : β → Bool}
    {convert : β → NodeId → Inquiry Failure γ} {b : Binding β}
    (h : (convert b.value b.field.type).AsksOnly r P) :
    (b.convert depth isArray convert).AsksOnly r P :=
  .bind (.of_asked_eq_nil rfl) fun _ _ =>
    .bind (.mapFailure (.bind (.of_asked_eq_nil (Inquiry.asked_ofExcept r _)) fun _ _ => h))
      fun _ _ => .of_asked_eq_nil rfl

theorem Scalar.decodeElement_asksOnly
    {object : ExtensionObject → NodeId → Inquiry Failure Plant.Record} {e : Scalar}
    (hobject : ∀ o, (object o type).AsksOnly r P) : (e.decodeElement object type).AsksOnly r P := by
  cases e with
  | leaf leaf => exact .of_asked_eq_nil rfl
  | object t body => exact hobject _

theorem Plant.Datum.encodeRecordElement_asksOnly
    {record : Record → NodeId → Inquiry Failure ExtensionObject} {d : Datum}
    (hrecord : ∀ rec, (record rec type).AsksOnly r P) :
    (d.encodeRecordElement record type).AsksOnly r P := by
  cases d with
  | record t fields => exact hrecord _
  | _ => exact .of_asked_eq_nil rfl

section covered
variable {K : NodeId → Prop} (hcovered : r.Covered P K)
include hcovered

theorem mapM_convert_asksOnly {depth : Nat} {isArray : β → Bool}
    {convert : β → NodeId → Inquiry Failure γ} {fields : List (String × β)}
    {bound : List (Binding β)} {shape : Shape} (htype : K type)
    (hbase : r.HasBase type (.structured shape)) (hd : r.definition type = .ok d)
    (hbound : (bindFields type d fields).eval r = .ok bound)
    (hconvert : ∀ b type, K type → (convert b type).AsksOnly r P) :
    (bound.mapM (Binding.convert depth isArray convert)).AsksOnly r P := by
  refine .mapM fun b hb => Binding.convert_asksOnly (hconvert _ _ ?_)
  exact hcovered.field type shape htype hbase _ (field_mem_schema_of_bindFields hd hbound b hb)

theorem bindFields_asksOnly_of_covered {fields : List (String × β)} {shape : Shape}
    (htype : K type) (hbase : r.HasBase type (.structured shape)) :
    (bindFields type d fields).AsksOnly r P :=
  bindFields_asksOnly (hcovered.supertypes type shape htype hbase) fun a ha =>
    hcovered.definition type shape htype hbase a (List.mem_cons_of_mem type ha)

theorem Variant.decodeWith_asksOnly
    {object : ExtensionObject → NodeId → Inquiry Failure Plant.Record} {v : Variant}
    (hobject : ∀ o type shape, K type → r.HasBase type (.structured shape) →
      (object o type).AsksOnly r P) (htype : K type) :
    (v.decodeWith object type).AsksOnly r P := by
  unfold decodeWith
  refine .bind (baseKindOf_asksOnly (hcovered.base type htype)) fun kind hkind => ?_
  cases kind with
  | value base => exact .of_asked_eq_nil (Inquiry.asked_ofExcept r _)
  | structured shape =>
    have hobject (o : ExtensionObject) : (object o type).AsksOnly r P :=
      hobject o type shape htype (baseKindOf_eval_eq_ok_iff.1 hkind)
    simp only
    split
    next => exact .bind (hobject _) fun _ _ => .of_asked_eq_nil rfl
    next =>
      exact .bind (.eachIndexed fun e _ => Scalar.decodeElement_asksOnly hobject) fun _ _ =>
        .of_asked_eq_nil (Inquiry.asked_ofExcept r _)
    next => exact .of_asked_eq_nil rfl

theorem ExtensionObject.decode_asksOnly (limit : Nat) {room : Nat} {o : ExtensionObject}
    {shape : Shape} (htype : K type) (hbase : r.HasBase type (.structured shape)) :
    (decode limit room o type).AsksOnly r P := by
  induction room generalizing o type shape with
  | zero => exact .of_asked_eq_nil rfl
  | succ room ih =>
    have hdefinition := hcovered.definition type shape htype hbase type List.mem_cons_self
    refine .bind (definitionOf_asksOnly hdefinition) fun d hd => ?_
    have hd := definitionOf_eval_eq_ok_iff.1 hd
    split
    next => exact .bind (.of_asked_eq_nil rfl) fun _ h => nomatch h
    next =>
      refine .bind (.of_asked_eq_nil rfl) fun _ _ => .bind
        (bindFields_asksOnly_of_covered hcovered htype hbase) fun bound hbound => ?_
      refine .bind (.of_asked_eq_nil (Inquiry.asked_ofExcept r _)) fun address _ => .bind ?_
        fun fields _ => .of_asked_eq_nil (Inquiry.asked_ofExcept r _)
      exact mapM_convert_asksOnly hcovered htype hbase hd hbound fun v type htype =>
        v.decodeWith_asksOnly hcovered (fun o type shape => ih) htype

theorem Plant.Datum.encodeWith_asksOnly {locale : String}
    {record : Record → NodeId → Inquiry Failure ExtensionObject} {d : Datum}
    (hrecord : ∀ rec type shape, K type → r.HasBase type (.structured shape) →
      (record rec type).AsksOnly r P) (htype : K type) :
    (d.encodeWith locale record type).AsksOnly r P := by
  unfold encodeWith
  refine .bind (baseKindOf_asksOnly (hcovered.base type htype)) fun kind hkind => ?_
  cases kind with
  | value base => exact .of_asked_eq_nil (Inquiry.asked_ofExcept r _)
  | structured shape =>
    have hrecord (rec : Record) : (record rec type).AsksOnly r P :=
      hrecord rec type shape htype (baseKindOf_eval_eq_ok_iff.1 hkind)
    simp only
    split
    next => exact .bind (hrecord _) fun _ _ => .of_asked_eq_nil rfl
    next =>
      exact .bind (.eachIndexed fun d _ => encodeRecordElement_asksOnly hrecord) fun _ _ =>
        .of_asked_eq_nil (Inquiry.asked_ofExcept r _)
    next => exact .of_asked_eq_nil rfl

theorem Plant.Record.encode_asksOnly (locale : String) (limit : Nat) {room : Nat} {rec : Record}
    {shape : Shape} (htype : K type) (hbase : r.HasBase type (.structured shape)) :
    (encode locale limit room rec type).AsksOnly r P := by
  induction room generalizing rec type shape with
  | zero => exact .of_asked_eq_nil rfl
  | succ room ih =>
    have hdefinition := hcovered.definition type shape htype hbase type List.mem_cons_self
    refine .bind (definitionOf_asksOnly hdefinition) fun d hd => ?_
    have hd := definitionOf_eval_eq_ok_iff.1 hd
    refine .bind (.of_asked_eq_nil rfl) fun _ _ => .bind
      (bindFields_asksOnly_of_covered hcovered htype hbase) fun bound hbound => ?_
    refine .bind ?_ fun fields _ => .of_asked_eq_nil rfl
    exact mapM_convert_asksOnly hcovered htype hbase hd hbound fun d type htype =>
      d.encodeWith_asksOnly hcovered (fun rec type shape => ih) htype

theorem Variant.decode_asksOnly (s : Settings) (v : Variant) (htype : K type) :
    (v.decode s type).AsksOnly r P := by
  refine .bind (v.decodeWith_asksOnly hcovered (fun o type shape =>
    ExtensionObject.decode_asksOnly hcovered s.maxDepth) htype) fun d _ => ?_
  split <;> exact .of_asked_eq_nil rfl

theorem Plant.Datum.encode_asksOnly (s : Settings) (d : Datum) (htype : K type) :
    (d.encode s type).AsksOnly r P := by
  refine .bind (d.encodeWith_asksOnly hcovered (fun rec type shape =>
    Record.encode_asksOnly hcovered s.locale s.maxDepth) htype) fun v _ => ?_
  split <;> exact .of_asked_eq_nil rfl

end covered
end UaBridge
