import UaBridge.Bridge.Batch
import UaBridge.Proofs.Bridge.Fields

namespace UaBridge

mutual

/-- An IO value inside of `depth` structures, and the value of a type that it is written as. -/
inductive Written (r : Resolver) (locale : String) (limit : Nat) :
    Nat → NodeId → Plant.Datum → Variant → Prop
  | value {depth type base d v} : r.HasBase type (.value base) → base.Writes locale d v →
      Written r locale limit depth type d v
  | record {depth type shape t fields body} : r.HasBase type (.structured shape) →
      WrittenRecord r locale limit depth type fields body →
      Written r locale limit depth type (.record t fields) (.scalar (.object type body))
  | records {depth type shape ds elements} : r.HasBase type (.structured shape) →
      WrittenRecords r locale limit depth type ds elements →
      Written r locale limit depth type (.array .record ds) (.array .extensionObject elements)

inductive WrittenRecords (r : Resolver) (locale : String) (limit : Nat) :
    Nat → NodeId → List Plant.Datum → List Scalar → Prop
  | nil {depth type} : WrittenRecords r locale limit depth type [] []
  | cons {depth type t fields body ds elements} :
      WrittenRecord r locale limit depth type fields body →
      WrittenRecords r locale limit depth type ds elements →
      WrittenRecords r locale limit depth type (.record t fields :: ds)
        (.object type body :: elements)

inductive WrittenRecord (r : Resolver) (locale : String) (limit : Nat) :
    Nat → NodeId → List (String × Plant.Datum) → Body → Prop
  | intro {depth type d fields body} : depth < limit → r.definition type = .ok d →
      d.shape = body.shape → r.Fits type d (fields.map (·.1)) →
      WrittenFields r locale limit (depth + 1) (r.schema type) ((r.schema type).arrange fields)
        body.toList →
      WrittenRecord r locale limit depth type fields body

inductive WrittenFields (r : Resolver) (locale : String) (limit : Nat) :
    Nat → Schema → List (String × Plant.Datum) → List (String × Variant) → Prop
  | nil {depth s} : WrittenFields r locale limit depth s [] []
  | cons {depth s name field d v ds vs} : s.slot? name = some field → d.isArray = field.isArray →
      Written r locale limit depth field.type d v → WrittenFields r locale limit depth s ds vs →
      WrittenFields r locale limit depth s ((name, d) :: ds) ((name, v) :: vs)

end

section encode
variable {r : Resolver} {locale : String} {limit depth : Nat} {type : NodeId} {v : Variant}
  {d : Plant.Datum} {o : ExtensionObject} {rec : Plant.Record}

theorem writtenFields_iff {s : Schema} {ds : List (String × Plant.Datum)}
    {vs : List (String × Variant)} :
    WrittenFields r locale limit depth s ds vs ↔
      List.Forall₂ (s.Carries Plant.Datum.isArray (Written r locale limit depth)) ds vs := by
  constructor
  · intro h
    induction ds generalizing vs with
    | nil => cases h; exact .nil
    | cons f ds ih =>
      cases h with
      | cons hslot harray hwritten hrest => exact .cons ⟨_, hslot, harray, hwritten, rfl⟩ (ih hrest)
  · intro h
    induction h with
    | nil => exact .nil
    | @cons f g ds vs hf _ ih =>
      obtain ⟨name, d⟩ := f
      obtain ⟨name', v⟩ := g
      obtain ⟨field, hslot, harray, hwritten, rfl⟩ := hf
      exact .cons hslot harray hwritten ih

variable {record : Plant.Record → NodeId → Inquiry Failure ExtensionObject}

theorem Plant.Datum.encodeRecordElement_eval_eq_ok_iff :
    (d.encodeRecordElement record type).eval r = .ok o ↔
      ∃ t fields, d = .record t fields ∧ (record ⟨t, fields⟩ type).eval r = .ok o := by
  cases d with
  | record t fields => simp [encodeRecordElement]
  | _ => simp [encodeRecordElement]

theorem writtenRecords_iff {ds : List Plant.Datum} {elements : List Scalar}
    (hrecord : ∀ rec o, (record rec type).eval r = .ok o ↔
      o.type = type ∧ WrittenRecord r locale limit depth type rec.fields o.body) :
    WrittenRecords r locale limit depth type ds elements ↔
      ∃ objects : List ExtensionObject, elements = objects.map ExtensionObject.toScalar ∧
        List.Forall₂ (fun d o => (Plant.Datum.encodeRecordElement record type d).eval r = .ok o)
          ds objects := by
  constructor
  · intro h
    induction ds generalizing elements with
    | nil => cases h; exact ⟨[], rfl, .nil⟩
    | cons d ds ih =>
      cases h with
      | @cons _ _ t fields body _ _ hw hrest =>
        obtain ⟨objects, rfl, hobjects⟩ := ih hrest
        have hd : (Plant.Datum.encodeRecordElement record type (.record t fields)).eval r =
            .ok ⟨type, body⟩ :=
          Plant.Datum.encodeRecordElement_eval_eq_ok_iff.2
            ⟨t, fields, rfl, (hrecord _ _).2 ⟨rfl, hw⟩⟩
        exact ⟨⟨type, body⟩ :: objects, rfl, .cons hd hobjects⟩
  · rintro ⟨objects, rfl, h⟩
    induction h with
    | nil => exact .nil
    | @cons d o _ _ hd _ ih =>
      obtain ⟨t, fields, rfl, hw⟩ := Plant.Datum.encodeRecordElement_eval_eq_ok_iff.1 hd
      obtain ⟨rfl, hw⟩ := (hrecord _ _).1 hw
      exact .cons hw ih

namespace Plant.Datum
variable {base : Builtin} {shape : Shape} {ds : List Datum}

theorem encodeWith_of_error {f : Failure} (h : (baseKindOf type).eval r = .error f) :
    (d.encodeWith locale record type).eval r = .error f := by
  rw [encodeWith, Inquiry.eval_bind, h, Except.error_bind]

theorem encodeWith_value (h : r.HasBase type (.value base)) :
    (d.encodeWith locale record type).eval r = d.encodeAs locale base := by
  rw [encodeWith, Inquiry.eval_bind, baseKindOf_eval_eq_ok_iff.2 h]
  exact Inquiry.eval_ofExcept r _

theorem encodeWith_record {t : Address} {fields : List (String × Datum)}
    (h : r.HasBase type (.structured shape)) :
    ((Datum.record t fields).encodeWith locale record type).eval r =
      ((record ⟨t, fields⟩ type).eval r).map fun o => .scalar o.toScalar := by
  rw [encodeWith, Inquiry.eval_bind, baseKindOf_eval_eq_ok_iff.2 h]
  exact Inquiry.eval_map r (fun o : ExtensionObject => Variant.scalar o.toScalar) _

theorem encodeWith_records (h : r.HasBase type (.structured shape)) :
    ((array .record ds).encodeWith locale record type).eval r =
      (eachIndexed (fun d => (d.encodeRecordElement record type).eval r) ds).map fun objects =>
        .array .extensionObject (objects.map ExtensionObject.toScalar) := by
  rw [encodeWith, Inquiry.eval_bind, baseKindOf_eval_eq_ok_iff.2 h, ← Inquiry.eval_eachIndexed]
  refine (Inquiry.eval_bind r _ _).trans ?_
  cases (Inquiry.eachIndexed (encodeRecordElement record type) ds).eval r with
  | error e => rfl
  | ok objects =>
    rw [Except.map, ← Variant.array?_eq_ok_iff.2 ⟨?_, rfl⟩]
    · exact Inquiry.eval_ofExcept r _
    · simp [ExtensionObject.toScalar, Scalar.builtin]

theorem encodeWith_of_forall_ne (h : r.HasBase type (.structured shape))
    (hrecord : ∀ t fields, d ≠ .record t fields) (hrecords : ∀ ds, d ≠ .array .record ds) :
    (d.encodeWith locale record type).eval r =
      .error (.of (.recordExpected shape type d.form)) := by
  rw [encodeWith, Inquiry.eval_bind, baseKindOf_eval_eq_ok_iff.2 h]
  cases d with
  | record t fields => exact absurd rfl (hrecord t fields)
  | array kind ds =>
    cases kind with
    | record => exact absurd rfl (hrecords ds)
    | _ => rfl
  | _ => rfl

theorem encodeWith_eval_eq_ok_iff
    (hrecord : ∀ type rec o, (record rec type).eval r = .ok o ↔
      o.type = type ∧ WrittenRecord r locale limit depth type rec.fields o.body) :
    (d.encodeWith locale record type).eval r = .ok v ↔ Written r locale limit depth type d v := by
  constructor
  · intro h
    obtain ⟨kind, hbase, -⟩ := Except.bind_eq_ok_iff.1 ((Inquiry.eval_bind r _ _).symm.trans h)
    rw [baseKindOf_eval_eq_ok_iff] at hbase
    cases kind with
    | value base =>
      rw [encodeWith_value hbase, encodeAs_eq_ok_iff] at h
      exact .value hbase h
    | structured shape =>
      match d with
      | .record t fields =>
        rw [encodeWith_record hbase, Except.map_eq_ok_iff] at h
        obtain ⟨o, ho, rfl⟩ := h
        obtain ⟨rfl, hw⟩ := (hrecord _ _ _).1 ho
        exact .record hbase hw
      | .array .record ds =>
        rw [encodeWith_records hbase, Except.map_eq_ok_iff] at h
        obtain ⟨objects, hobjects, rfl⟩ := h
        refine .records hbase ((writtenRecords_iff (hrecord type)).2 ⟨objects, rfl, ?_⟩)
        exact eachIndexed_eq_ok_iff.1 hobjects
      | .scalar _ | .address _ | .array (.scalar _) _ | .array .address _ =>
        rw [encodeWith_of_forall_ne hbase (by simp) (by simp)] at h
        cases h
  · intro h
    cases h with
    | value hbase hwrites => rw [encodeWith_value hbase, encodeAs_eq_ok_iff.2 hwrites]
    | record hbase hw =>
      rw [encodeWith_record hbase, Except.map_eq_ok_iff]
      exact ⟨⟨type, _⟩, (hrecord _ _ _).2 ⟨rfl, hw⟩, rfl⟩
    | records hbase hws =>
      obtain ⟨objects, rfl, hobjects⟩ := (writtenRecords_iff (hrecord type)).1 hws
      rw [encodeWith_records hbase, Except.map_eq_ok_iff]
      exact ⟨objects, eachIndexed_eq_ok_iff.2 hobjects, rfl⟩

end Plant.Datum

theorem Plant.Datum.encode_eval_eq (s : Settings) :
    (d.encode s type).eval r =
      (d.encodeWith s.locale (Plant.Record.encode s.locale s.maxDepth s.maxDepth) type).eval r := by
  simp only [encode, Inquiry.eval_bind]
  cases (d.encodeWith s.locale (Plant.Record.encode s.locale s.maxDepth s.maxDepth) type).eval r with
  | error e => rfl
  | ok v =>
    simp only [bind, Except.bind]
    cases d.isComposite <;> rfl

theorem Resolver.Fits.length_le_one {names : List String} {definition : Definition}
    (h : r.Fits type definition names) (hshape : definition.shape = .union) : names.length ≤ 1 := by
  cases h with
  | record hrecord => rw [hshape] at hrecord; cases hrecord
  | empty _ hnames => simp [hnames]
  | declared _ hnames => simp [hnames]
  | inherited _ hnames => simp [hnames]

theorem toList_getLast?_of_length_le_one {α : Type} {l : List α} (h : l.length ≤ 1) :
    l.getLast?.toList = l := by
  match l with
  | [] => rfl
  | [a] => rfl

theorem Plant.Record.encode_succ_eval_eq_ok_iff {room : Nat} :
    (encode locale limit (room + 1) rec type).eval r = .ok o ↔
      ∃ d, r.definition type = .ok d ∧ d.shape = o.body.shape ∧
        r.Fits type d (rec.fields.map (·.1)) ∧ o.type = type ∧
        List.Forall₂ ((r.schema type).Carries Plant.Datum.isArray
            fun type d v => (d.encodeWith locale (encode locale limit room) type).eval r = .ok v)
          ((r.schema type).arrange rec.fields) o.body.toList := by
  simp only [encode, Inquiry.eval_bind, Except.bind_eq_ok_iff, definitionOf_eval_eq_ok_iff,
    Inquiry.eval_report, Inquiry.eval_pure]
  constructor
  · rintro ⟨d, hd, -, -, bound, hbind, fields, hfields, heq⟩
    obtain ⟨hfits, hcarried⟩ := (convertFields_eval_eq_ok_iff hd).1 ⟨bound, hbind, hfields⟩
    cases heq
    cases hshape : d.shape with
    | record => exact ⟨d, hd, hshape, hfits, rfl, hcarried⟩
    | union =>
      have hlength : fields.length ≤ 1 := by
        rw [← hcarried.length_eq, ((r.schema type).arrange_perm _).length_eq]
        simpa using hfits.length_le_one hshape
      refine ⟨d, hd, hshape, hfits, rfl, ?_⟩
      rwa [Body.toList, toList_getLast?_of_length_le_one hlength]
  · rintro ⟨d, hd, hshape, hfits, rfl, hcarried⟩
    obtain ⟨bound, hbind, hfields⟩ := (convertFields_eval_eq_ok_iff hd).2 ⟨hfits, hcarried⟩
    refine ⟨d, hd, (), trivial, bound, hbind, _, hfields, ?_⟩
    obtain ⟨type, body⟩ := o
    cases body with
    | fields fs => rw [hshape]; rfl
    | union selected => cases selected <;> rw [hshape] <;> rfl

theorem Plant.Record.encode_eval_eq_ok_iff {room : Nat} (hroom : depth + room = limit) :
    (encode locale limit room rec type).eval r = .ok o ↔
      o.type = type ∧ WrittenRecord r locale limit depth type rec.fields o.body := by
  induction room generalizing depth o type rec with
  | zero =>
    constructor
    · intro h; cases h
    · rintro ⟨-, hdepth, -⟩
      omega
  | succ room ih =>
    have hinner : ∀ type d v, (d.encodeWith locale (encode locale limit room) type).eval r = .ok v ↔
        Written r locale limit (depth + 1) type d v := fun type d v =>
      Plant.Datum.encodeWith_eval_eq_ok_iff fun type rec o => ih (by omega)
    rw [encode_succ_eval_eq_ok_iff]
    simp only [hinner, ← writtenFields_iff]
    constructor
    · rintro ⟨d, hd, hshape, hfits, htype, hfields⟩
      exact ⟨htype, .intro (by omega) hd hshape hfits hfields⟩
    · rintro ⟨htype, _, hd, hshape, hfits, hfields⟩
      exact ⟨_, hd, hshape, hfits, htype, hfields⟩

theorem Plant.Datum.encode_eval_eq_ok_iff (s : Settings) :
    (d.encode s type).eval r = .ok v ↔ Written r s.locale s.maxDepth 0 type d v := by
  rw [encode_eval_eq]
  exact encodeWith_eval_eq_ok_iff fun type rec o =>
    Record.encode_eval_eq_ok_iff (Nat.zero_add _)

end encode
end UaBridge
