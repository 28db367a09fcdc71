import Mathlib.Data.List.Permutation
import UaBridge.Bridge.Batch
import UaBridge.Proofs.Bridge.Fields
import UaBridge.Proofs.Plant.Record

namespace UaBridge

mutual

/-- A value of a type inside of `depth` structures, and the IO value that it is read as. -/
inductive Typed (r : Resolver) (limit : Nat) : Nat → NodeId → Variant → Plant.Datum → Prop
  | value {depth type base v d} : r.HasBase type (.value base) → base.Reads v d →
      Typed r limit depth type v d
  | object {depth type shape t body a fields} : r.HasBase type (.structured shape) →
      TypedObject r limit depth type body a fields →
      Typed r limit depth type (.scalar (.object t body)) (.record a fields)
  | objects {depth type shape elements ds} : r.HasBase type (.structured shape) →
      TypedObjects r limit depth type elements ds →
      Typed r limit depth type (.array .extensionObject elements) (.array .record ds)

inductive TypedObjects (r : Resolver) (limit : Nat) :
    Nat → NodeId → List Scalar → List Plant.Datum → Prop
  | nil {depth type} : TypedObjects r limit depth type [] []
  | cons {depth type t body a fields elements ds} : TypedObject r limit depth type body a fields →
      TypedObjects r limit depth type elements ds →
      TypedObjects r limit depth type (.object t body :: elements) (.record a fields :: ds)

/-- An extension object declared as a type; the type that it says it has does not matter. -/
inductive TypedObject (r : Resolver) (limit : Nat) :
    Nat → NodeId → Body → Plant.Address → List (String × Plant.Datum) → Prop
  | intro {depth type d body a fields} : depth < limit → r.definition type = .ok d →
      d.shape = body.shape → type.HasAddress a → r.Fits type d (body.toList.map (·.1)) →
      TypedFields r limit (depth + 1) (r.schema type) ((r.schema type).arrange body.toList) fields →
      TypedObject r limit depth type body a fields

inductive TypedFields (r : Resolver) (limit : Nat) :
    Nat → Schema → List (String × Variant) → List (String × Plant.Datum) → Prop
  | nil {depth s} : TypedFields r limit depth s [] []
  | cons {depth s name field v d vs ds} : s.slot? name = some field → v.isArray = field.isArray →
      Typed r limit depth field.type v d → TypedFields r limit depth s vs ds →
      TypedFields r limit depth s ((name, v) :: vs) ((name, d) :: ds)

end

section decode
variable {r : Resolver} {limit depth : Nat} {type : NodeId} {v : Variant} {d : Plant.Datum}
  {o : ExtensionObject} {record : Plant.Record}

theorem typedFields_iff {s : Schema} {vs : List (String × Variant)}
    {ds : List (String × Plant.Datum)} :
    TypedFields r limit depth s vs ds ↔
      List.Forall₂ (s.Carries Variant.isArray (Typed r limit depth)) vs ds := by
  constructor
  · intro h
    induction vs generalizing ds with
    | nil => cases h; exact .nil
    | cons f vs ih =>
      cases h with
      | cons hslot harray htyped hrest => exact .cons ⟨_, hslot, harray, htyped, rfl⟩ (ih hrest)
  · intro h
    induction h with
    | nil => exact .nil
    | @cons f g vs ds hf _ ih =>
      obtain ⟨name, v⟩ := f
      obtain ⟨name', d⟩ := g
      obtain ⟨field, hslot, harray, htyped, rfl⟩ := hf
      exact .cons hslot harray htyped ih

variable {object : ExtensionObject → NodeId → Inquiry Failure Plant.Record}

theorem Scalar.decodeElement_eval_eq_ok_iff {e : Scalar} :
    (e.decodeElement object type).eval r = .ok record ↔
      ∃ t body, e = .object t body ∧ (object ⟨t, body⟩ type).eval r = .ok record := by
  cases e with
  | leaf leaf => simp [decodeElement]
  | object t body => simp [decodeElement]

theorem typedObjects_iff {elements : List Scalar} {ds : List Plant.Datum}
    (hobject : ∀ o record, (object o type).eval r = .ok record ↔
      TypedObject r limit depth type o.body record.type record.fields) :
    TypedObjects r limit depth type elements ds ↔
      ∃ records : List Plant.Record, ds = records.map Plant.Record.toDatum ∧
        List.Forall₂ (fun e record => (e.decodeElement object type).eval r = .ok record)
          elements records := by
  constructor
  · intro h
    induction elements generalizing ds with
    | nil => cases h; exact ⟨[], rfl, .nil⟩
    | cons e elements ih =>
      cases h with
      | @cons _ _ t body a fields _ _ ho hrest =>
        obtain ⟨records, rfl, hrecords⟩ := ih hrest
        have he : ((Scalar.object t body).decodeElement object type).eval r = .ok ⟨a, fields⟩ :=
          Scalar.decodeElement_eval_eq_ok_iff.2 ⟨t, body, rfl, (hobject _ _).2 ho⟩
        exact ⟨⟨a, fields⟩ :: records, rfl, .cons he hrecords⟩
  · rintro ⟨records, rfl, h⟩
    induction h with
    | nil => exact .nil
    | cons he _ ih =>
      obtain ⟨t, body, rfl, ho⟩ := Scalar.decodeElement_eval_eq_ok_iff.1 he
      exact .cons ((hobject _ _).1 ho) ih

theorem Scalar.exists_object_of_builtin {e : Scalar} (h : e.builtin = .extensionObject) :
    ∃ t body, e = .object t body := by
  cases e with
  | leaf leaf => cases leaf <;> cases h
  | object t body => exact ⟨t, body, rfl⟩

namespace Variant
variable {base : Builtin} {shape : Shape} {elements : List Scalar}

theorem decodeWith_of_error {f : Failure} (h : (baseKindOf type).eval r = .error f) :
    (v.decodeWith object type).eval r = .error f := by
  rw [decodeWith, Inquiry.eval_bind, h, Except.error_bind]

theorem decodeWith_value (h : r.HasBase type (.value base)) :
    (v.decodeWith object type).eval r = v.decodeAs base := by
  rw [decodeWith, Inquiry.eval_bind, baseKindOf_eval_eq_ok_iff.2 h]
  exact Inquiry.eval_ofExcept r _

theorem decodeWith_object {t : NodeId} {body : Body} (h : r.HasBase type (.structured shape)) :
    ((scalar (.object t body)).decodeWith object type).eval r =
      ((object ⟨t, body⟩ type).eval r).map Plant.Record.toDatum := by
  rw [decodeWith, Inquiry.eval_bind, baseKindOf_eval_eq_ok_iff.2 h]
  exact Inquiry.eval_map r Plant.Record.toDatum _

theorem decodeWith_objects (h : r.HasBase type (.structured shape)) :
    ((array .extensionObject elements).decodeWith object type).eval r =
      (eachIndexed (fun e => (e.decodeElement object type).eval r) elements).map fun records =>
        .array .record (records.map Plant.Record.toDatum) := by
  rw [decodeWith, Inquiry.eval_bind, baseKindOf_eval_eq_ok_iff.2 h, ← Inquiry.eval_eachIndexed]
  refine (Inquiry.eval_bind r _ _).trans ?_
  cases (Inquiry.eachIndexed (Scalar.decodeElement object type) elements).eval r with
  | error e => rfl
  | ok records =>
    rw [Except.map, ← Plant.Datum.array?_eq_ok_iff.2 ⟨?_, rfl⟩]
    · exact Inquiry.eval_ofExcept r _
    · simp [Plant.Record.toDatum, Plant.Datum.elementKind?]

theorem decodeWith_of_ne (h : r.HasBase type (.structured shape))
    (hv : v.builtin ≠ .extensionObject) :
    (v.decodeWith object type).eval r = .error (.of (.objectExpected shape type v.builtin)) := by
  rw [decodeWith, Inquiry.eval_bind, baseKindOf_eval_eq_ok_iff.2 h]
  cases v with
  | scalar e =>
    cases e with
    | leaf leaf => rfl
    | object t body => exact absurd rfl hv
  | array t elements => cases t <;> first | exact absurd rfl hv | rfl

theorem decodeWith_eval_eq_ok_iff
    (hobject : ∀ o type record, (object o type).eval r = .ok record ↔
      TypedObject r limit depth type o.body record.type record.fields) :
    (v.decodeWith object type).eval r = .ok d ↔ Typed r limit depth type v d := by
  constructor
  · intro h
    obtain ⟨kind, hbase, -⟩ := Except.bind_eq_ok_iff.1 ((Inquiry.eval_bind r _ _).symm.trans h)
    rw [baseKindOf_eval_eq_ok_iff] at hbase
    cases kind with
    | value base =>
      rw [decodeWith_value hbase, decodeAs_eq_ok_iff] at h
      exact .value hbase h
    | structured shape =>
      by_cases hv : v.builtin = .extensionObject
      · cases v with
        | scalar e =>
          obtain ⟨t, body, rfl⟩ := Scalar.exists_object_of_builtin hv
          rw [decodeWith_object hbase, Except.map_eq_ok_iff] at h
          obtain ⟨record, ho, rfl⟩ := h
          exact .object hbase ((hobject _ _ _).1 ho)
        | array t elements =>
          obtain rfl : t = .extensionObject := hv
          rw [decodeWith_objects hbase, Except.map_eq_ok_iff] at h
          obtain ⟨records, hrecords, rfl⟩ := h
          refine .objects hbase ((typedObjects_iff fun o => hobject o type).2 ⟨records, rfl, ?_⟩)
          exact eachIndexed_eq_ok_iff.1 hrecords
      · rw [decodeWith_of_ne hbase hv] at h
        cases h
  · intro h
    cases h with
    | value hbase hreads => rw [decodeWith_value hbase, decodeAs_eq_ok_iff.2 hreads]
    | object hbase ho =>
      rw [decodeWith_object hbase, Except.map_eq_ok_iff]
      exact ⟨⟨_, _⟩, (hobject _ _ _).2 ho, rfl⟩
    | objects hbase hos =>
      obtain ⟨records, rfl, hrecords⟩ := (typedObjects_iff fun o => hobject o type).1 hos
      rw [decodeWith_objects hbase, Except.map_eq_ok_iff]
      exact ⟨records, eachIndexed_eq_ok_iff.2 hrecords, rfl⟩

end Variant

theorem Variant.decode_eval_eq (s : Settings) :
    (v.decode s type).eval r =
      (v.decodeWith (ExtensionObject.decode s.maxDepth s.maxDepth) type).eval r := by
  simp only [decode, Inquiry.eval_bind]
  cases (v.decodeWith (ExtensionObject.decode s.maxDepth s.maxDepth) type).eval r with
  | error e => rfl
  | ok d =>
    simp only [bind, Except.bind]
    cases d.isComposite <;> rfl

theorem ExtensionObject.decode_succ_eval_eq_ok_iff {room : Nat} :
    (decode limit (room + 1) o type).eval r = .ok record ↔
      ∃ d a, r.definition type = .ok d ∧ d.shape = o.body.shape ∧ type.HasAddress a ∧
        r.Fits type d (o.body.toList.map (·.1)) ∧ record.type = a ∧
        List.Forall₂ ((r.schema type).Carries Variant.isArray
            fun type v d => (v.decodeWith (decode limit room) type).eval r = .ok d)
          ((r.schema type).arrange o.body.toList) record.fields := by
  simp only [decode, Inquiry.eval_bind, Except.bind_eq_ok_iff, definitionOf_eval_eq_ok_iff]
  constructor
  · rintro ⟨d, hd, h⟩
    split at h
    next =>
      rw [Inquiry.eval_bind, Inquiry.eval_fail] at h
      cases h
    next hshape =>
      simp only [Inquiry.eval_bind, Except.bind_eq_ok_iff, Inquiry.eval_report,
        Inquiry.eval_ofExcept, NodeId.toAddress_eq_ok_iff, Plant.Record.ofFields_eq_ok_iff] at h
      obtain ⟨-, -, bound, hbind, a, ha, fields, hfields, -, rfl⟩ := h
      obtain ⟨hfits, hcarried⟩ := (convertFields_eval_eq_ok_iff hd).1 ⟨bound, hbind, hfields⟩
      exact ⟨d, a, hd, not_not.1 hshape, ha, hfits, rfl, hcarried⟩
  · rintro ⟨d, a, hd, hshape, ha, hfits, rfl, hcarried⟩
    obtain ⟨bound, hbind, hfields⟩ := (convertFields_eval_eq_ok_iff hd).2 ⟨hfits, hcarried⟩
    refine ⟨d, hd, ?_⟩
    rw [if_neg (not_not.2 hshape)]
    simp only [Inquiry.eval_bind, Except.bind_eq_ok_iff, Inquiry.eval_report,
        Inquiry.eval_ofExcept, NodeId.toAddress_eq_ok_iff, Plant.Record.ofFields_eq_ok_iff]
    refine ⟨(), trivial, bound, hbind, _, ha, _, hfields, ?_, rfl⟩
    rw [← Schema.map_fst_of_carries hcarried]
    exact ((r.schema type).map_fst_arrange_perm _).nodup_iff.2 hfits.nodup

theorem ExtensionObject.decode_eval_eq_ok_iff {room : Nat} (hroom : depth + room = limit) :
    (decode limit room o type).eval r = .ok record ↔
      TypedObject r limit depth type o.body record.type record.fields := by
  -- The recursion is on the depth that is left, the typing counts the depth that is used.
  induction room generalizing depth o type record with
  | zero =>
    constructor
    · intro h; cases h
    · intro h
      cases h with
      | intro hdepth => omega
  | succ room ih =>
    have hinner : ∀ type v d, (v.decodeWith (decode limit room) type).eval r = .ok d ↔
        Typed r limit (depth + 1) type v d := fun type v d =>
      Variant.decodeWith_eval_eq_ok_iff fun o type record => ih (by omega)
    rw [decode_succ_eval_eq_ok_iff]
    simp only [hinner, ← typedFields_iff]
    constructor
    · rintro ⟨d, a, hd, hshape, ha, hfits, rfl, hfields⟩
      exact .intro (by omega) hd hshape ha hfits hfields
    · intro h
      cases h with
      | intro _ hd hshape ha hfits hfields => exact ⟨_, _, hd, hshape, ha, hfits, rfl, hfields⟩

theorem Variant.decodeWith_decode_eval_eq_ok_iff {room : Nat} (hroom : depth + room = limit) :
    (v.decodeWith (ExtensionObject.decode limit room) type).eval r = .ok d ↔
      Typed r limit depth type v d :=
  decodeWith_eval_eq_ok_iff fun _ _ _ => ExtensionObject.decode_eval_eq_ok_iff hroom

theorem Variant.decode_eval_eq_ok_iff (s : Settings) :
    (v.decode s type).eval r = .ok d ↔ Typed r s.maxDepth 0 type v d := by
  rw [decode_eval_eq, decodeWith_decode_eval_eq_ok_iff (Nat.zero_add _)]

theorem Typed.unique {room : Nat} {d' : Plant.Datum} (hroom : depth + room = limit)
    (h : Typed r limit depth type v d) (h' : Typed r limit depth type v d') : d = d' := by
  rw [← Variant.decodeWith_decode_eval_eq_ok_iff hroom] at h h'
  exact Except.ok.inj (h.symm.trans h')

/-- Reading accepts exactly the values of the type and yields the one thing that they are read as;
it refuses all other values. -/
theorem Variant.decode_eq_ok_iff_typed (r : Resolver) (s : Settings) (type : NodeId) (v : Variant) :
    (∀ d, (v.decode s type).eval r = .ok d ↔ Typed r s.maxDepth 0 type v d) ∧
      (∀ d d', Typed r s.maxDepth 0 type v d → Typed r s.maxDepth 0 type v d' → d = d') ∧
      ((∃ f, (v.decode s type).eval r = .error f) ↔ ¬∃ d, Typed r s.maxDepth 0 type v d) := by
  refine ⟨fun d => decode_eval_eq_ok_iff s, fun d d' => Typed.unique (Nat.zero_add _), ?_⟩
  simp only [← decode_eval_eq_ok_iff]
  cases (v.decode s type).eval r <;> simp

end decode

namespace Tank

def vessel : NodeId := .numeric 1 1

def tank : NodeId := .string 1 "Tank"

def types : Resolver where
  definition id :=
    if id = vessel then
      .ok ⟨vessel, "Vessel", .record, [⟨"level", Builtin.float.typeId, false, false⟩]⟩
    else if id = tank then
      .ok ⟨tank, "Tank", .record,
        [⟨"counts", Builtin.uint16.typeId, true, false⟩,
          ⟨"label", Builtin.localizedText.typeId, false, true⟩, ⟨"inner", vessel, false, true⟩]⟩
    else .error (.unknownType id)
  supertypes id :=
    if id = vessel then .ok [.structureType]
    else if id = tank then .ok [vessel, .structureType]
    else .error (.unknownType id)

/-- The fields are in no order, and the vessel says that it is a tank. -/
def value : Variant :=
  .scalar (.object .null (.fields
    [("level", .scalar (.leaf (.float ⟨0x40490fdb⟩))),
      ("inner", .scalar (.object tank (.fields [("level", .scalar (.leaf (.float ⟨0⟩)))]))),
      ("counts", .array .uint16 [.leaf (.uint16 7), .leaf (.uint16 65535)])]))

def image : Plant.Datum :=
  .record (.string 1 "Tank")
    [("counts", .array (.scalar .uint) [.scalar (.uint 7), .scalar (.uint 65535)]),
      ("inner", .record (.numeric 1 1) [("level", .scalar (.float ⟨0⟩))]),
      ("level", .scalar (.float ⟨0x40490fdb⟩))]

theorem decode_value : (value.decode .standard tank).eval types = .ok image := by cbv

end Tank

theorem Variant.decode_eq_ok_iff_typed_tank :
    Typed Tank.types 32 0 Tank.tank Tank.value Tank.image ∧
      (¬∃ d, Typed Tank.types 32 0 Tank.vessel Tank.value d) ∧
      Typed Tank.types 32 0 .enumerationType (.scalar (.leaf (.int32 2))) (.scalar (.long 2)) ∧
      (¬∃ d, Typed Tank.types 32 0 .enumerationType (.scalar (.leaf (.int64 2))) d) ∧
      Typed Tank.types 32 0 .durationType (.scalar (.leaf (.double ⟨0x4059000000000000⟩)))
        (.scalar (.double ⟨0x4059000000000000⟩)) ∧
      Typed Tank.types 32 0 .utcTimeType (.scalar (.leaf (.dateTime 5))) (.scalar (.llong 5)) := by
  have hread {type : NodeId} {v : Variant} {d : Plant.Datum}
      (h : (v.decode .standard type).eval Tank.types = .ok d) : Typed Tank.types 32 0 type v d :=
    ((decode_eq_ok_iff_typed Tank.types .standard type v).1 d).1 h
  have hrefused {type : NodeId} {v : Variant}
      (h : ∃ f, (v.decode .standard type).eval Tank.types = .error f) :
      ¬∃ d, Typed Tank.types 32 0 type v d :=
    (decode_eq_ok_iff_typed Tank.types .standard type v).2.2.1 h
  exact ⟨hread Tank.decode_value, hrefused ⟨⟨[], .undeclared "inner" Tank.vessel⟩, by cbv⟩, hread (by cbv),
    hrefused ⟨⟨[], .builtinMismatch .int32 .int64⟩, by cbv⟩, hread (by cbv), hread (by cbv)⟩

end UaBridge
