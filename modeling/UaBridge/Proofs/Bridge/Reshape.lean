import Mathlib.Tactic
import UaBridge.Proofs.Bridge.Canonical

namespace UaBridge

variable {r : Resolver} {locale : String} {limit : Nat}

/-- Some record in a value of a type is declared as `t`. -/
inductive Declares (r : Resolver) (t : NodeId) : NodeId → Plant.Datum → Prop
  | here {t' fields} : Declares r t t (.record t' fields)
  | element {type kind ds d} : d ∈ ds → Declares r t type d → Declares r t type (.array kind ds)
  | field {type t' fields f field} : f ∈ fields → (r.schema type).slot? f.1 = some field →
      Declares r t field.type f.2 → Declares r t type (.record t' fields)

mutual

/-- The same value of a type but for the widths of numbers, the tags of records and the order of
their fields. -/
inductive Reshaped (r : Resolver) (locale : String) : NodeId → Plant.Datum → Plant.Datum → Prop
  | value {type base d d'} : r.HasBase type (.value base) → base.Recodes locale d d' →
      Reshaped r locale type d d'
  | record {type t fields a fields'} : ReshapedRecord r locale type fields a fields' →
      Reshaped r locale type (.record t fields) (.record a fields')
  | records {type ds ds'} : ReshapedRecords r locale type ds ds' →
      Reshaped r locale type (.array .record ds) (.array .record ds')

inductive ReshapedRecords (r : Resolver) (locale : String) :
    NodeId → List Plant.Datum → List Plant.Datum → Prop
  | nil {type} : ReshapedRecords r locale type [] []
  | cons {type t fields a fields' ds ds'} : ReshapedRecord r locale type fields a fields' →
      ReshapedRecords r locale type ds ds' →
      ReshapedRecords r locale type (.record t fields :: ds) (.record a fields' :: ds')

inductive ReshapedRecord (r : Resolver) (locale : String) : NodeId →
    List (String × Plant.Datum) → Plant.Address → List (String × Plant.Datum) → Prop
  | intro {type fields a fields'} : type.HasAddress a →
      ReshapedFields r locale (r.schema type) ((r.schema type).arrange fields) fields' →
      ReshapedRecord r locale type fields a fields'

inductive ReshapedFields (r : Resolver) (locale : String) :
    Schema → List (String × Plant.Datum) → List (String × Plant.Datum) → Prop
  | nil {s} : ReshapedFields r locale s [] []
  | cons {s name field d d' ds ds'} : s.slot? name = some field →
      Reshaped r locale field.type d d' → ReshapedFields r locale s ds ds' →
      ReshapedFields r locale s ((name, d) :: ds) ((name, d') :: ds')

end

theorem Written.isArray_eq {depth : Nat} {type : NodeId} {d : Plant.Datum} {v : Variant}
    (h : Written r locale limit depth type d v) : v.isArray = d.isArray := by
  cases h with
  | value _ hwrites => exact hwrites.isArray_eq
  | record => rfl
  | records => rfl

mutual

theorem Written.exists_typed : ∀ {depth type d v}, Written r locale limit depth type d v →
    (∀ t, Declares r t type d → ∃ a, t.HasAddress a) →
    ∃ d', Typed r limit depth type v d' ∧ Reshaped r locale type d d'
  | _, _, _, _, .value hbase hwrites, _ => by
    obtain ⟨d', hreads, hrecodes⟩ := hwrites.exists_reads
    exact ⟨d', .value hbase hreads, .value hbase hrecodes⟩
  | _, _, _, _, .record hbase hw, haddress => by
    obtain ⟨a, fields', htyped, hreshaped⟩ := hw.exists_typed haddress
    exact ⟨.record a fields', .object hbase htyped, .record hreshaped⟩
  | _, _, _, _, .records hbase hws, haddress => by
    obtain ⟨ds', htyped, hreshaped⟩ := hws.exists_typed fun t d hd hdeclares =>
      haddress t (.element hd hdeclares)
    exact ⟨.array .record ds', .objects hbase htyped, .records hreshaped⟩

theorem WrittenRecords.exists_typed : ∀ {depth type ds elements},
    WrittenRecords r locale limit depth type ds elements →
    (∀ t, ∀ d ∈ ds, Declares r t type d → ∃ a, t.HasAddress a) →
    ∃ ds', TypedObjects r limit depth type elements ds' ∧ ReshapedRecords r locale type ds ds'
  | _, _, _, _, .nil, _ => ⟨[], .nil, .nil⟩
  | _, _, _, _, .cons hw hws, haddress => by
    obtain ⟨a, fields', htyped, hreshaped⟩ := hw.exists_typed fun t =>
      haddress t _ List.mem_cons_self
    obtain ⟨ds', htypeds, hreshapeds⟩ := hws.exists_typed fun t d hd =>
      haddress t d (List.mem_cons_of_mem _ hd)
    exact ⟨.record a fields' :: ds', .cons htyped htypeds, .cons hreshaped hreshapeds⟩

theorem WrittenRecord.exists_typed : ∀ {depth type t fields body},
    WrittenRecord r locale limit depth type fields body →
    (∀ t', Declares r t' type (.record t fields) → ∃ a, t'.HasAddress a) →
    ∃ a fields', TypedObject r limit depth type body a fields' ∧
      ReshapedRecord r locale type fields a fields'
  | _, type, _, fields, body, .intro hdepth hd hshape hfits hfields, haddress => by
    obtain ⟨a, ha⟩ := haddress type .here
    have hcarries := writtenFields_iff.1 hfields
    obtain ⟨fields', htyped, hreshaped⟩ := hfields.exists_typed fun t f hf field hslot hdeclares =>
      haddress t (.field (Schema.mem_arrange.1 hf) hslot hdeclares)
    refine ⟨a, fields', .intro hdepth hd hshape ha ?_ ?_, .intro ha hreshaped⟩
    · exact hfits.perm (Schema.map_fst_perm_of_carries hcarries)
    · -- What has been written stands in schema order already, so reading arranges nothing.
      rwa [Schema.arrange_eq_of_carries hcarries]

theorem WrittenFields.exists_typed : ∀ {depth s ds vs}, WrittenFields r locale limit depth s ds vs →
    (∀ t, ∀ f ∈ ds, ∀ field, s.slot? f.1 = some field → Declares r t field.type f.2 →
      ∃ a, t.HasAddress a) →
    ∃ ds', TypedFields r limit depth s vs ds' ∧ ReshapedFields r locale s ds ds'
  | _, _, _, _, .nil, _ => ⟨[], .nil, .nil⟩
  | _, _, _, _, .cons hslot harray hw hrest, haddress => by
    obtain ⟨d', htyped, hreshaped⟩ := hw.exists_typed fun t =>
      haddress t _ List.mem_cons_self _ hslot
    obtain ⟨ds', htypeds, hreshapeds⟩ := hrest.exists_typed fun t f hf =>
      haddress t f (List.mem_cons_of_mem _ hf)
    exact ⟨(_, d') :: ds', .cons hslot (hw.isArray_eq.trans harray) htyped htypeds,
      .cons hslot hreshaped hreshapeds⟩

end

theorem Plant.Datum.not_declares_of_encodeElement {base : Builtin} {leaf : Leaf} {type t : NodeId}
    {d : Plant.Datum} (h : d.encodeElement locale base = .ok leaf) : ¬Declares r t type d := by
  intro hdeclares
  cases hdeclares <;> cases h

theorem Builtin.Writes.not_declares {base : Builtin} {v : Variant} {type t : NodeId}
    {d : Plant.Datum} (h : base.Writes locale d v) : ¬Declares r t type d := by
  cases h with
  | scalar hleaf => exact Plant.Datum.not_declares_of_encodeElement hleaf
  | array hleaves =>
    intro hdeclares
    cases hdeclares with
    | element hd hdeclares =>
      induction hleaves with
      | nil => cases hd
      | cons hleaf _ ih =>
        cases List.mem_cons.1 hd with
        | inl heq => exact Plant.Datum.not_declares_of_encodeElement hleaf (heq ▸ hdeclares)
        | inr hmem => exact ih hmem

mutual

theorem Written.hasAddress {t : NodeId} : ∀ {depth type d v d'},
    Written r locale limit depth type d v → Typed r limit depth type v d' →
    Declares r t type d → ∃ a, t.HasAddress a
  | _, _, _, _, _, .value _ hwrites, _, hdeclares => absurd hdeclares hwrites.not_declares
  | _, _, _, _, _, .record _ hw, .object _ htyped, hdeclares => hw.hasAddress htyped hdeclares
  -- A type has one base, so what is written as a record is not read as a leaf.
  | _, _, _, _, _, .record hbase _, .value hbase' _, _ => nomatch hbase.unique hbase'
  | _, _, _, _, _, .records _ hws, .objects _ htyped, .element hd hdeclares =>
    hws.hasAddress htyped hd hdeclares
  | _, _, _, _, _, .records hbase _, .value hbase' _, _ => nomatch hbase.unique hbase'

theorem WrittenRecords.hasAddress {t : NodeId} {d : Plant.Datum} : ∀ {depth type ds elements ds'},
    WrittenRecords r locale limit depth type ds elements →
    TypedObjects r limit depth type elements ds' → d ∈ ds → Declares r t type d →
    ∃ a, t.HasAddress a
  | _, _, _, _, _, .cons hw hws, .cons htyped htypeds, hd, hdeclares => by
    cases List.mem_cons.1 hd with
    | inl heq => exact hw.hasAddress htyped (heq ▸ hdeclares)
    | inr hmem => exact hws.hasAddress htypeds hmem hdeclares

theorem WrittenRecord.hasAddress {t : NodeId} : ∀ {depth type t' fields body a fields'},
    WrittenRecord r locale limit depth type fields body →
    TypedObject r limit depth type body a fields' → Declares r t type (.record t' fields) →
    ∃ a, t.HasAddress a
  | _, _, _, _, _, a, _, .intro .., .intro _ _ _ ha .., .here => ⟨a, ha⟩
  | _, _, _, _, _, _, _, .intro _ _ _ _ hfields, .intro _ _ _ _ _ htyped, .field hf hslot hdeclares =>
    by
    rw [Schema.arrange_eq_of_carries (writtenFields_iff.1 hfields)] at htyped
    exact hfields.hasAddress htyped (Schema.mem_arrange.2 hf) hslot hdeclares

theorem WrittenFields.hasAddress {t : NodeId} {f : String × Plant.Datum} {field : Field} :
    ∀ {depth s ds vs ds'}, WrittenFields r locale limit depth s ds vs →
    TypedFields r limit depth s vs ds' → f ∈ ds → s.slot? f.1 = some field →
    Declares r t field.type f.2 → ∃ a, t.HasAddress a
  | _, _, _, _, _, .cons hslot _ hw hrest, .cons hslot' _ htyped htypeds, hf, hfield, hdeclares =>
    match List.mem_cons.1 hf with
    | .inl heq => by
      have hsame := Option.some.inj (hslot'.symm.trans hslot)
      rw [heq] at hfield hdeclares
      rw [Option.some.inj (hfield.symm.trans hslot)] at hdeclares
      exact hw.hasAddress (hsame ▸ htyped) hdeclares
    | .inr hmem => hrest.hasAddress htypeds hmem hfield hdeclares

end

theorem Scalar.areCanonical_leaf {type : NodeId} (leaves : List Leaf) :
    AreCanonical r type (leaves.map .leaf) := by
  induction leaves with
  | nil => trivial
  | cons leaf leaves ih => exact ⟨trivial, ih⟩

theorem Builtin.Writes.isCanonical {base : Builtin} {type : NodeId} {d : Plant.Datum} {v : Variant}
    (h : base.Writes locale d v) : v.IsCanonical r type := by
  cases h with
  | scalar => trivial
  | array => exact Scalar.areCanonical_leaf _

theorem Body.isCanonical_of_toList {type : NodeId} (body : Body)
    (hsorted : body.toList.Pairwise fun f g =>
      (r.schema type).place f.1 ≤ (r.schema type).place g.1)
    (hfields : Variant.AreCanonical r (r.schema type) body.toList) : body.IsCanonical r type := by
  cases body with
  | fields fs => exact ⟨hsorted, hfields⟩
  | union selected =>
    cases selected with
    | none => trivial
    | some f => exact hfields.1

mutual

theorem Written.isCanonical : ∀ {depth type d v}, Written r locale limit depth type d v →
    v.IsCanonical r type
  | _, _, _, _, .value _ hwrites => hwrites.isCanonical
  | _, _, _, _, .record _ hw => ⟨rfl, hw.isCanonical⟩
  | _, _, _, _, .records _ hws => hws.areCanonical

theorem WrittenRecords.areCanonical : ∀ {depth type ds elements},
    WrittenRecords r locale limit depth type ds elements → Scalar.AreCanonical r type elements
  | _, _, _, _, .nil => trivial
  | _, _, _, _, .cons hw hws => ⟨⟨rfl, hw.isCanonical⟩, hws.areCanonical⟩

theorem WrittenRecord.isCanonical : ∀ {depth type fields body},
    WrittenRecord r locale limit depth type fields body → body.IsCanonical r type
  | _, type, _, body, .intro _ _ _ _ hfields => by
    apply body.isCanonical_of_toList _ hfields.areCanonical
    rw [← Schema.arrange_eq_of_carries (writtenFields_iff.1 hfields)]
    exact (r.schema type).pairwise_arrange _

theorem WrittenFields.areCanonical : ∀ {depth s ds vs}, WrittenFields r locale limit depth s ds vs →
    Variant.AreCanonical r s vs
  | _, _, _, _, .nil => trivial
  | _, _, _, _, .cons hslot _ hw hrest => by
    refine ⟨fun field hfield => ?_, hrest.areCanonical⟩
    rw [← Option.some.inj (hslot.symm.trans hfield)]
    exact hw.isCanonical

end

section failures

abbrev FailsMalformed {α : Type} (x : Except Failure α) : Prop :=
  x.FailsOnly fun f => f.kind = .malformedIdentifier

theorem FailsMalformed.within {α : Type} {x : Except Failure α} (step : Step)
    (h : FailsMalformed x) : FailsMalformed (x.mapError (·.within step)) :=
  h.mapError fun _ hf => hf

theorem NodeId.failsMalformed_toAddress (id : NodeId) : FailsMalformed id.toAddress := by
  intro f hf
  obtain ⟨ns, identifier⟩ := id
  cases identifier <;> cases hf <;> rfl

theorem Inquiry.failsMalformed_eachIndexed {α β : Type} {f : α → Inquiry Failure β} {l : List α}
    (h : ∀ a ∈ l, FailsMalformed ((f a).eval r)) : FailsMalformed ((eachIndexed f l).eval r) := by
  simp only [eachIndexed, eval_mapM, eval_within]
  apply Except.FailsOnly.mapM
  intro p hp
  exact (h p.1 (List.fst_mem_of_mem_zipIdx hp)).within (.index p.2)

theorem Binding.failsMalformed_convert {β γ : Type} {depth : Nat} {isArray : β → Bool}
    {convert : β → NodeId → Inquiry Failure γ} {b : Binding β}
    (harray : isArray b.value = b.field.isArray)
    (h : FailsMalformed ((convert b.value b.field.type).eval r)) :
    FailsMalformed ((b.convert depth isArray convert).eval r) := by
  simp only [Binding.convert, Inquiry.eval_bind, Inquiry.eval_report, Inquiry.eval_within,
    Inquiry.eval_ofExcept, Inquiry.eval_pure]
  have hcheck : checkArray (isArray b.value) b.field = .ok () := checkArray_eq_ok_iff.2 harray
  refine .bind (.of_eq_ok rfl) fun _ _ => .bind ?_ fun _ _ => .of_eq_ok rfl
  exact FailsMalformed.within _ (.bind (.of_eq_ok hcheck) fun _ _ => h)

theorem ExtensionObject.failsMalformed_decode {room : Nat} {type t : NodeId} {d : Definition}
    {body : Body} (hd : r.definition type = .ok d) (hshape : d.shape = body.shape)
    (hfits : r.Fits type d (body.toList.map (·.1)))
    (hfields : ∀ f ∈ body.toList, ∀ field, (r.schema type).slot? f.1 = some field →
      f.2.isArray = field.isArray ∧
        FailsMalformed ((f.2.decodeWith (decode limit room) field.type).eval r)) :
    FailsMalformed ((decode limit (room + 1) ⟨t, body⟩ type).eval r) := by
  simp only [decode, Inquiry.eval_bind]
  refine .bind (.of_eq_ok (definitionOf_eval_eq_ok_iff.2 hd)) fun d' hd' => ?_
  cases hd.symm.trans (definitionOf_eval_eq_ok_iff.1 hd')
  rw [if_neg (not_not.2 hshape)]
  simp only [Inquiry.eval_bind, Inquiry.eval_report, Inquiry.eval_ofExcept]
  refine .bind (.of_eq_ok rfl) fun _ _ => ?_
  obtain ⟨bound, hbind⟩ := exists_bindFields_of_fits hd hfits
  refine .bind (.of_eq_ok hbind) fun bound' hbound' => ?_
  cases hbind.symm.trans hbound'
  refine .bind (NodeId.failsMalformed_toAddress type) fun a _ => .bind ?_ fun fields hconvert => ?_
  · rw [Inquiry.eval_mapM]
    apply Except.FailsOnly.mapM
    intro b hb
    have hmem : b.taken ∈ (r.schema type).placed body.toList :=
      (fits_of_bindFields hd hbind).2 ▸ List.mem_map_of_mem hb
    obtain ⟨f, hf, hslot, hvalue⟩ := Schema.mem_placed_iff.1 hmem
    obtain ⟨harray, hmalformed⟩ := hfields f hf b.field hslot
    rw [hvalue] at harray hmalformed
    exact Binding.failsMalformed_convert harray hmalformed
  · have hcarries := ((convertFields_eval_eq_ok_iff hd).1 ⟨bound, hbind, hconvert⟩).2
    have hnodup := (Schema.map_fst_perm_of_carries hcarries).nodup hfits.nodup
    exact .of_eq_ok (Plant.Record.ofFields_eq_ok_iff.2 ⟨hnodup, rfl⟩)

mutual

theorem Written.failsMalformed : ∀ {depth room type d v}, Written r locale limit depth type d v →
    depth + room = limit →
    FailsMalformed ((v.decodeWith (ExtensionObject.decode limit room) type).eval r)
  | _, _, _, _, _, .value hbase hwrites, hroom => by
    obtain ⟨d', hreads, -⟩ := hwrites.exists_reads
    exact .of_eq_ok
      ((Variant.decodeWith_decode_eval_eq_ok_iff hroom).2 (.value hbase hreads))
  | _, _, _, _, _, .record hbase hw, hroom => by
    rw [Variant.decodeWith, Inquiry.eval_bind]
    refine .bind (.of_eq_ok (baseKindOf_eval_eq_ok_iff.2 hbase)) fun kind hkind => ?_
    cases hbase.unique (baseKindOf_eval_eq_ok_iff.1 hkind)
    simp only [Inquiry.eval_bind, Inquiry.eval_pure]
    exact .bind (hw.failsMalformed hroom) fun _ _ => .of_eq_ok rfl
  | _, _, _, _, _, .records hbase hws, hroom => by
    rw [Variant.decodeWith, Inquiry.eval_bind]
    refine .bind (.of_eq_ok (baseKindOf_eval_eq_ok_iff.2 hbase)) fun kind hkind => ?_
    cases hbase.unique (baseKindOf_eval_eq_ok_iff.1 hkind)
    simp only [Inquiry.eval_bind, Inquiry.eval_ofExcept]
    refine .bind (Inquiry.failsMalformed_eachIndexed (hws.failsMalformed hroom)) fun records _ => ?_
    refine .of_eq_ok (Plant.Datum.array?_eq_ok_iff.2 ⟨?_, rfl⟩)
    simp [Plant.Record.toDatum, Plant.Datum.elementKind?]

theorem WrittenRecords.failsMalformed : ∀ {depth room type ds elements},
    WrittenRecords r locale limit depth type ds elements → depth + room = limit →
    ∀ e ∈ elements,
      FailsMalformed ((e.decodeElement (ExtensionObject.decode limit room) type).eval r)
  | _, _, _, _, _, .nil, _, _, he => nomatch he
  | _, _, _, _, _, .cons hw hws, hroom, e, he =>
    match List.mem_cons.1 he with
    | .inl heq => heq ▸ hw.failsMalformed hroom
    | .inr hmem => hws.failsMalformed hroom e hmem

theorem WrittenRecord.failsMalformed : ∀ {depth room type t fields body},
    WrittenRecord r locale limit depth type fields body → depth + room = limit →
    FailsMalformed ((ExtensionObject.decode limit room ⟨t, body⟩ type).eval r)
  | _, 0, _, _, _, _, .intro hdepth _ _ _ _, hroom => by omega
  | depth, room + 1, _, _, _, _, .intro _ hd hshape hfits hfields, hroom =>
    have hnames := Schema.map_fst_perm_of_carries (writtenFields_iff.1 hfields)
    have hinner : depth + 1 + room = limit := by omega
    ExtensionObject.failsMalformed_decode hd hshape (hfits.perm hnames)
      (hfields.failsMalformed hinner)

theorem WrittenFields.failsMalformed : ∀ {depth room s ds vs},
    WrittenFields r locale limit depth s ds vs → depth + room = limit →
    ∀ f ∈ vs, ∀ field, s.slot? f.1 = some field → f.2.isArray = field.isArray ∧
      FailsMalformed ((f.2.decodeWith (ExtensionObject.decode limit room) field.type).eval r)
  | _, _, _, _, _, .nil, _, _, hf, _, _ => nomatch hf
  | _, _, _, _, _, .cons hslot harray hw hrest, hroom, f, hf, field, hfield =>
    match List.mem_cons.1 hf with
    | .inl heq => by
      rw [heq] at hfield ⊢
      rw [← Option.some.inj (hslot.symm.trans hfield)]
      exact ⟨hw.isArray_eq.trans harray, hw.failsMalformed hroom⟩
    | .inr hmem => hrest.failsMalformed hroom f hmem field hfield

end

end failures

/-- What has been written can be read exactly if every type that a record in it is declared as has
an address; if not, this is the reason given. What is then read is the value that was written, up to
form, and is written as the same again. -/
theorem Plant.Datum.decode_of_encode (r : Resolver) (s : Settings) (type : NodeId)
    (d : Plant.Datum) (v : Variant) (h : (d.encode s type).eval r = .ok v) :
    ((∃ d', (v.decode s type).eval r = .ok d') ↔ ∀ t, Declares r t type d → t.isBinary = false) ∧
      (∀ f, (v.decode s type).eval r = .error f → f.kind = .malformedIdentifier) ∧
      ∀ d', (v.decode s type).eval r = .ok d' →
        (d'.encode s type).eval r = .ok v ∧ Reshaped r s.locale type d d' := by
  have hwritten : Written r s.locale s.maxDepth 0 type d v := (encode_eval_eq_ok_iff s).1 h
  have hread {d' : Plant.Datum} (h' : Typed r s.maxDepth 0 type v d') :
      ∀ t, Declares r t type d → ∃ a, t.HasAddress a := fun t => hwritten.hasAddress h'
  simp only [Variant.decode_eval_eq_ok_iff, encode_eval_eq_ok_iff, ← NodeId.exists_hasAddress_iff]
  refine ⟨⟨fun ⟨d', h'⟩ => hread h', fun haddress => ?_⟩, ?_, fun d' h' => ⟨?_, ?_⟩⟩
  · obtain ⟨d', htyped, -⟩ := hwritten.exists_typed haddress
    exact ⟨d', htyped⟩
  · rw [Variant.decode_eval_eq]
    exact hwritten.failsMalformed (Nat.zero_add _)
  · have hcanonical := Variant.canonical_eq_self type v hwritten.isCanonical
    have hrewritten : Written r s.locale s.maxDepth 0 type d' (v.canonical r type) := h'.written
    rwa [hcanonical] at hrewritten
  · obtain ⟨d'', htyped, hreshaped⟩ := hwritten.exists_typed (hread h')
    exact Typed.unique (Nat.zero_add _) htyped h' ▸ hreshaped

namespace Tank

def source : Plant.Datum :=
  .record (.numeric 7 7)
    [("label", .scalar (.string (some "north"))), ("level", .scalar (.double ⟨0x4004000000000000⟩)),
      ("inner", .record (.string 0 "") [("level", .scalar (.float ⟨0⟩))]),
      ("counts", .array (.scalar .llong) [.scalar (.llong 7), .scalar (.llong 65535)])]

def written : Variant :=
  .scalar (.object tank (.fields
    [("counts", .array .uint16 [.leaf (.uint16 7), .leaf (.uint16 65535)]),
      ("label", .scalar (.leaf (.localizedText ⟨some "en", some "north"⟩))),
      ("inner", .scalar (.object vessel (.fields [("level", .scalar (.leaf (.float ⟨0⟩)))]))),
      ("level", .scalar (.leaf (.float ⟨0x40200000⟩)))]))

end Tank

theorem Plant.Datum.decode_of_encode_tank :
    (Tank.source.encode .standard Tank.tank).eval Tank.types = .ok Tank.written ∧
      ∀ d', (Tank.written.decode .standard Tank.tank).eval Tank.types = .ok d' →
        (d'.encode .standard Tank.tank).eval Tank.types = .ok Tank.written ∧
          Reshaped Tank.types "en" Tank.tank Tank.source d' := by
  have h : (Tank.source.encode .standard Tank.tank).eval Tank.types = .ok Tank.written := by cbv
  exact ⟨h, (decode_of_encode Tank.types .standard Tank.tank Tank.source Tank.written h).2.2⟩

end UaBridge
