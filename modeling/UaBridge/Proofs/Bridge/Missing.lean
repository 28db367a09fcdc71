import UaBridge.Proofs.Bridge.Lookup
import UaBridge.Proofs.Bridge.Typing
import UaBridge.Proofs.Bridge.Writing

namespace UaBridge

variable {β : Type} {r : Resolver} {type : NodeId} {d : Definition} {defs : List Definition}
  {names : List String} {fields : List (String × β)} {p : Nat} {field : Field}
  {own : List Definition → Bool}

namespace Schema
variable {s : Schema}

structure Lacks (s : Schema) (names : List String) (p : Nat) (field : Field) : Prop where
  slot : s[p]? = some field
  mandatory : field.optional = false
  unbound : ∀ n ∈ names, s.place n ≠ p

structure LacksFirst (s : Schema) (names : List String) (p : Nat) (field : Field) : Prop
    extends s.Lacks names p field where
  first : ∀ q < p, ∀ other, ¬s.Lacks names q other

theorem Lacks.not_filled (h : s.Lacks names p field) : ¬s.Filled names := by
  intro hfilled
  obtain ⟨n, hn, hplace⟩ := hfilled p field h.slot h.mandatory
  exact h.unbound n hn hplace

end Schema

def Layer.LiesIn (l : Layer) (defs : List Definition) : Prop :=
  ∃ before after, defs = before ++ l.definition :: after ∧ l.offset = (Schema.flat before).length

namespace Claims
variable {s : Schema} {c : Claims β} {l : Layer}

structure Laid (c : Claims β) (defs : List Definition) (fields : List (String × β)) : Prop
    extends c.Consulted defs fields where
  layer : ∀ l ∈ c.layers, l.LiesIn defs

theorem laid_start (fields : List (String × β)) : (start fields).Laid [] fields where
  toConsulted := consulted_start fields
  layer := by simp [start]

theorem Laid.add (h : c.Laid defs fields) (d : Definition) :
    (c.add d).Laid (defs ++ [d]) fields where
  toConsulted := h.toConsulted.add d
  layer := by
    intro l hl
    simp only [Claims.add, List.mem_append, List.mem_singleton] at hl
    obtain hl | rfl := hl
    · obtain ⟨before, after, rfl, hoffset⟩ := h.layer l hl
      exact ⟨before, after ++ [d], by simp, hoffset⟩
    · exact ⟨defs, [], rfl, h.covers.width⟩

theorem exists_laid (hdefs : r.HasAncestry type defs) (d : Definition)
    (fields : List (String × β)) :
    ∃ chain c, r.HasChain type chain ∧
      (((start fields).add d).inherit type .record chain).eval r = .ok c ∧
      c.Laid (d :: defs) fields := by
  obtain ⟨chain, hchain, hdefs⟩ := hdefs
  have hdefines : ∀ a ∈ chain, a.isStandard = false → r.Defines a := fun a ha hstandard =>
    Except.exists_forall₂_iff.1 ⟨defs, hdefs⟩ a (by simp [ha, hstandard])
  obtain ⟨c, hc⟩ := exists_inherit_record ((start fields).add d) type hdefines
  obtain ⟨asked, rest, more, hasked, hmore, hlaid, hrest⟩ :=
    inherit_induction (P := fun defs c => c.Laid defs fields) (fun h d => h.add d)
      ((laid_start fields).add d) hc
  rw [hasked, hrest rfl, List.append_nil] at hdefs
  obtain rfl := r.rightUnique_definition.forall₂ hmore hdefs
  exact ⟨chain, c, hchain, hc, hlaid⟩

def vacant (c : Claims β) (e : Field × Nat) : Bool :=
  !e.1.optional && !(c.bound.any (·.position == e.2))

theorem missingIn?_eq :
    c.missingIn? l =
      ((l.definition.fields.zipIdx l.offset).find? c.vacant).map (·.1) := by
  rw [missingIn?, List.zipIdx_eq_map_add (i := l.offset), List.find?_map, Option.map_map]
  rfl

theorem find?_vacant_of_missing? (h : c.missing? = some (l, field)) :
    l ∈ c.layers ∧ ∃ index, l.definition.fields[index]? = some field ∧
      (c.layers.flatMap fun l => l.definition.fields.zipIdx l.offset).find? c.vacant =
        some (field, l.offset + index) := by
  obtain ⟨before, l', after, hlayers, hl, hbefore⟩ := List.findSome?_eq_some_iff.1 h
  simp only [missingIn?_eq, Option.map_map, Option.map_eq_some_iff] at hl
  obtain ⟨⟨field', p⟩, hfind, heq⟩ := hl
  cases heq
  obtain ⟨hle, hslot⟩ :=
    List.mk_mem_zipIdx_iff_le_and_getElem?_sub.1 (List.mem_of_find?_eq_some hfind)
  refine ⟨by simp [hlayers], p - l.offset, hslot, ?_⟩
  rw [Nat.add_sub_cancel' hle, List.find?_flatMap, List.findSome?_eq_some_iff]
  refine ⟨before, l, after, hlayers, hfind, fun x hx => ?_⟩
  simpa [missingIn?_eq] using hbefore x hx

theorem Covers.vacant_iff (h : c.Covers s fields) (hp : s[p]? = some field) :
    c.vacant (field, p) ↔ s.Lacks (fields.map (·.1)) p field := by
  have hbound := h.exists_position_iff (List.getElem?_eq_some_iff.1 hp).1
  have hany : c.bound.any (·.position == p) = false ↔ ∀ n ∈ fields.map (·.1), s.place n ≠ p := by
    rw [← not_iff_not, Bool.not_eq_false, List.any_eq_true]
    simpa using hbound
  simp only [vacant, Bool.and_eq_true, Bool.not_eq_true', hany]
  exact ⟨fun ⟨hmandatory, hunbound⟩ => ⟨hp, hmandatory, hunbound⟩,
    fun hlacks => ⟨hlacks.mandatory, hlacks.unbound⟩⟩

theorem Covers.lacksFirst_of_missing? (h : c.Covers s fields)
    (hmissing : c.missing? = some (l, field)) :
    l ∈ c.layers ∧ ∃ index, l.definition.fields[index]? = some field ∧
      s.LacksFirst (fields.map (·.1)) (l.offset + index) field := by
  obtain ⟨hl, index, hslot, hfind⟩ := find?_vacant_of_missing? hmissing
  rw [h.layers, List.find?_eq_some_iff_getElem] at hfind
  obtain ⟨hvacant, i, hi, hget, hfirst⟩ := hfind
  rw [List.getElem_zipIdx, Nat.zero_add, Prod.mk.injEq] at hget
  obtain ⟨hget, rfl⟩ := hget
  rw [List.length_zipIdx] at hi
  have hp : s[l.offset + index]? = some field := List.getElem?_eq_some_iff.2 ⟨hi, hget⟩
  refine ⟨hl, index, hslot, (h.vacant_iff hp).1 hvacant, fun q hq other hlacks => ?_⟩
  have hfull := hfirst q hq
  obtain ⟨hlt, hother⟩ := List.getElem?_eq_some_iff.1 hlacks.slot
  rw [List.getElem_zipIdx, Nat.zero_add, hother, (h.vacant_iff hlacks.slot).2 hlacks] at hfull
  cases hfull

end Claims

/-- The failure for the first missing field. It counts as the type's own when `own` says so of the
definitions before that of the field. -/
def MissingFirst (own : List Definition → Bool) (type : NodeId) (defs : List Definition)
    (names : List String) (f : Failure) : Prop :=
  ∃ before e after index field, defs = before ++ e :: after ∧ e.fields[index]? = some field ∧
    (Schema.flat defs).LacksFirst names ((Schema.flat before).length + index) field ∧
    f = .of (.mandatoryMissing field.name type (if own before then none else some e.id))

/-- However fields with these names are given, and wherever they are in a value, the conversion
fails for the first missing field. -/
structure FailsMissing (own : List Definition → Bool) (r : Resolver) (type : NodeId)
    (d : Definition) (defs : List Definition) (names : List String) : Prop where
  bind {β : Type} (fields : List (String × β)) : fields.map (·.1) = names →
    ∃ f, (bindFields type d fields).eval r = .error f ∧ MissingFirst own type (d :: defs) names f
  object (limit room : Nat) (o : ExtensionObject) : 0 < room → o.body.shape = .record →
    o.body.toList.map (·.1) = names → ∃ f,
      (ExtensionObject.decode limit room o type).eval r = .error f ∧
        MissingFirst own type (d :: defs) names f
  record (locale : String) (limit room : Nat) (rec : Plant.Record) : 0 < room →
    rec.fields.map (·.1) = names → ∃ f,
      (Plant.Record.encode locale limit room rec type).eval r = .error f ∧
        MissingFirst own type (d :: defs) names f
  decode (s : Settings) (t : NodeId) (body : Body) (shape : Shape) : 0 < s.maxDepth →
    r.HasBase type (.structured shape) → body.shape = .record →
    body.toList.map (·.1) = names → ∃ f,
      ((Variant.scalar (.object t body)).decode s type).eval r = .error f ∧
        MissingFirst own type (d :: defs) names f
  encode (s : Settings) (t : Plant.Address) (fields : List (String × Plant.Datum))
    (shape : Shape) : 0 < s.maxDepth → r.HasBase type (.structured shape) →
    fields.map (·.1) = names → ∃ f,
      ((Plant.Datum.record t fields).encode s type).eval r = .error f ∧
        MissingFirst own type (d :: defs) names f

section bindFields

theorem bindFields_record_eval_eq {chain : List NodeId} {c : Claims β} (hshape : d.shape = .record)
    (hnodup : (fields.map (·.1)).Nodup) (hchain : r.HasChain type chain)
    (hc : (((Claims.start fields).add d).inherit type .record chain).eval r = .ok c) :
    (bindFields type d fields).eval r = (c.finish type .record).eval r := by
  rw [← firstRepeat?_eq_none_iff] at hnodup
  rw [← supertypesOf_eval_eq_ok_iff] at hchain
  simp [bindFields, Definition.isUnion, hshape, hnodup, hchain, hc, Except.ok_bind]

theorem bindFields_missing (hshape : d.shape = .record) (hdefs : r.HasAncestry type defs)
    (hown : ∀ before e after, d :: defs = before ++ e :: after →
      own before = (Schema.flat before).isEmpty)
    (hnodup : (fields.map (·.1)).Nodup)
    (hslots : ∀ n ∈ fields.map (·.1), (Schema.flat (d :: defs)).Declares n)
    (hlacks : (Schema.flat (d :: defs)).Lacks (fields.map (·.1)) p field) :
    ∃ f, (bindFields type d fields).eval r = .error f ∧
      MissingFirst own type (d :: defs) (fields.map (·.1)) f := by
  obtain ⟨chain, c, hchain, hc, hlaid⟩ := Claims.exists_laid hdefs d fields
  have hpending : c.pending = [] := by
    rw [hlaid.covers.pending_eq_nil_iff]
    exact fun f hf => Schema.isSome_slot?_iff.2 (hslots f.1 (List.mem_map_of_mem hf))
  obtain ⟨⟨l, field'⟩, hmissing⟩ : ∃ e, c.missing? = some e := by
    rw [← Option.isSome_iff_exists, ← Option.ne_none_iff_isSome, ne_eq,
      hlaid.covers.missing?_eq_none_iff]
    exact hlacks.not_filled
  obtain ⟨hl, index, hslot, hfirst⟩ := hlaid.covers.lacksFirst_of_missing? hmissing
  obtain ⟨before, after, hsplit, hoffset⟩ := hlaid.layer l hl
  refine ⟨_, (bindFields_record_eval_eq hshape hnodup hchain hc).trans ?_, before, l.definition,
    after, index, field', hsplit, hslot, hoffset ▸ hfirst, rfl⟩
  have hinherited : Claims.Layer.inheritedFrom? l =
      if own before then none else some l.definition.id := by
    simp [Claims.Layer.inheritedFrom?, hoffset, hown before _ _ hsplit]
  simp [Claims.finish, hpending, hmissing, hinherited]

theorem ExtensionObject.decode_eval_eq_error {limit room : Nat} {o : ExtensionObject} {f : Failure}
    (hroom : 0 < room) (hd : r.definition type = .ok d) (hshape : d.shape = o.body.shape)
    (hf : (bindFields type d o.body.toList).eval r = .error f) :
    (decode limit room o type).eval r = .error f := by
  obtain ⟨room, rfl⟩ := Nat.exists_eq_succ_of_ne_zero hroom.ne'
  rw [← definitionOf_eval_eq_ok_iff] at hd
  simp [decode, hd, hshape, hf, Except.ok_bind, Except.error_bind]

theorem Plant.Record.encode_eval_eq_error {locale : String} {limit room : Nat} {rec : Record}
    {f : Failure} (hroom : 0 < room) (hd : r.definition type = .ok d)
    (hf : (bindFields type d rec.fields).eval r = .error f) :
    (encode locale limit room rec type).eval r = .error f := by
  obtain ⟨room, rfl⟩ := Nat.exists_eq_succ_of_ne_zero hroom.ne'
  rw [← definitionOf_eval_eq_ok_iff] at hd
  simp [encode, hd, hf, Except.ok_bind, Except.error_bind]

theorem failsMissing (hd : r.definition type = .ok d) (hshape : d.shape = .record)
    (hdefs : r.HasAncestry type defs)
    (hown : ∀ before e after, d :: defs = before ++ e :: after →
      own before = (Schema.flat before).isEmpty)
    (hnodup : names.Nodup) (hslots : ∀ n ∈ names, (Schema.flat (d :: defs)).Declares n)
    (hlacks : (Schema.flat (d :: defs)).Lacks names p field) :
    FailsMissing own r type d defs names := by
  have hbind {β : Type} (fields : List (String × β)) (hfields : fields.map (·.1) = names) :
      ∃ f, (bindFields type d fields).eval r = .error f ∧
        MissingFirst own type (d :: defs) names f := by
    subst hfields
    exact bindFields_missing hshape hdefs hown hnodup hslots hlacks
  refine ⟨hbind, ?_, ?_, ?_, ?_⟩
  · intro limit room o hroom hbody hfields
    obtain ⟨f, hf, hfirst⟩ := hbind o.body.toList hfields
    exact ⟨f, ExtensionObject.decode_eval_eq_error hroom hd (hshape.trans hbody.symm) hf, hfirst⟩
  · intro locale limit room rec hroom hfields
    obtain ⟨f, hf, hfirst⟩ := hbind rec.fields hfields
    exact ⟨f, Plant.Record.encode_eval_eq_error hroom hd hf, hfirst⟩
  · intro s t body shape hdepth hbase hbody hfields
    obtain ⟨f, hf, hfirst⟩ := hbind body.toList hfields
    refine ⟨f, ?_, hfirst⟩
    rw [Variant.decode_eval_eq, Variant.decodeWith_object hbase, Except.map_eq_error_iff]
    exact ExtensionObject.decode_eval_eq_error hdepth hd (hshape.trans hbody.symm) hf
  · intro s t fields shape hdepth hbase hfields
    obtain ⟨f, hf, hfirst⟩ := hbind fields hfields
    refine ⟨f, ?_, hfirst⟩
    rw [Plant.Datum.encode_eval_eq, Plant.Datum.encodeWith_record hbase, Except.map_eq_error_iff]
    exact Plant.Record.encode_eval_eq_error hdepth hd hf

/-- Of a structure some of whose mandatory fields are missing, the first one is reported, and it
counts as inherited if there are fields before those of the definition that declares it. For a type
with fields of its own these are the fields that it inherits. -/
theorem missing_mandatory_reported (r : Resolver) (type : NodeId) (d : Definition)
    (hd : r.definition type = .ok d) (hshape : d.shape = .record) (defs : List Definition)
    (hdefs : r.HasAncestry type defs) (names : List String) (hnodup : names.Nodup)
    (hslots : ∀ n ∈ names, (Schema.flat (d :: defs)).Declares n)
    (hlacks : ∃ p field, (Schema.flat (d :: defs)).Lacks names p field) :
    FailsMissing (fun before => (Schema.flat before).isEmpty) r type d defs names ∧
      (d.fields ≠ [] → FailsMissing List.isEmpty r type d defs names) := by
  obtain ⟨p, field, hlacks⟩ := hlacks
  refine ⟨failsMissing hd hshape hdefs (fun _ _ _ _ => rfl) hnodup hslots hlacks, fun hfields =>
    failsMissing hd hshape hdefs (fun before e after hsplit => ?_) hnodup hslots hlacks⟩
  cases before with
  | nil => rfl
  | cons d' before =>
    obtain ⟨rfl, -⟩ := List.cons.inj hsplit
    simp [Schema.flat, hfields]

namespace Gauge

def device : Definition :=
  ⟨.numeric 1 1, "Device", .record, [⟨"serial", Builtin.uint32.typeId, false, false⟩]⟩

def gauge : Definition := ⟨.numeric 1 2, "Gauge", .record, []⟩

def ranged : Definition :=
  ⟨.numeric 1 3, "Ranged", .record, [⟨"range", Builtin.double.typeId, false, false⟩]⟩

def registry : Registry :=
  ([device, gauge, ranged].foldl Registry.register .empty).registerSubtype gauge.id device.id
    |>.registerSubtype ranged.id gauge.id

def types : Resolver := registry.resolver

end Gauge

theorem missing_mandatory_reported_ranged :
    Gauge.types.HasAncestry Gauge.ranged.id [Gauge.gauge, Gauge.device] ∧
      (Schema.flat [Gauge.ranged, Gauge.gauge, Gauge.device]).Lacks ["range"] 1
        ⟨"serial", Builtin.uint32.typeId, false, false⟩ ∧
      FailsMissing List.isEmpty Gauge.types Gauge.ranged.id Gauge.ranged
        [Gauge.gauge, Gauge.device] ["range"] := by
  have hd : Gauge.types.definition Gauge.ranged.id = .ok Gauge.ranged := by cbv
  have hdefs : Gauge.types.HasAncestry Gauge.ranged.id [Gauge.gauge, Gauge.device] :=
    ⟨[Gauge.gauge.id, Gauge.device.id, .structureType], ⟨by cbv, by decide⟩,
      .cons (by cbv) (.cons (by cbv) .nil)⟩
  have hlacks : (Schema.flat [Gauge.ranged, Gauge.gauge, Gauge.device]).Lacks ["range"] 1
      ⟨"serial", Builtin.uint32.typeId, false, false⟩ := ⟨rfl, rfl, by decide⟩
  exact ⟨hdefs, hlacks, (missing_mandatory_reported Gauge.types _ _ hd rfl _ hdefs ["range"]
    (by decide) (by decide) ⟨_, _, hlacks⟩).2 (by decide)⟩

/-- A gauge has no fields of its own, and yet what it inherits counts as its own. -/
theorem missing_mandatory_misattributed :
    Gauge.types.definition Gauge.gauge.id = .ok Gauge.gauge ∧
      Gauge.types.HasAncestry Gauge.gauge.id [Gauge.device] ∧
      (Schema.flat [Gauge.gauge, Gauge.device]).Lacks [] 0
        ⟨"serial", Builtin.uint32.typeId, false, false⟩ ∧
      ¬FailsMissing List.isEmpty Gauge.types Gauge.gauge.id Gauge.gauge [Gauge.device] [] := by
  refine ⟨by cbv, ⟨[Gauge.device.id, .structureType], ⟨by cbv, by decide⟩, .cons (by cbv) .nil⟩,
    ⟨rfl, rfl, by decide⟩, fun h => ?_⟩
  obtain ⟨f, hf, before, e, after, index, field, hsplit, hfield, -, hfailure⟩ :=
    h.bind ([] : List (String × Unit)) rfl
  have hblamed : (bindFields Gauge.gauge.id Gauge.gauge ([] : List (String × Unit))).eval
      Gauge.types = .error (.of (.mandatoryMissing "serial" Gauge.gauge.id none)) := by cbv
  rw [hblamed, Except.error.injEq] at hf
  subst hf
  cases before with
  | nil =>
    obtain ⟨rfl, -⟩ := List.cons.inj hsplit
    cases hfield
  | cons d' before => simp [Failure.of] at hfailure

end bindFields
end UaBridge
