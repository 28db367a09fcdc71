import UaBridge.Proofs.Bridge.Canonical

namespace UaBridge

mutual

/-- How many structures are inside each other, at most. Arrays do not count. -/
def Variant.nesting : Variant → Nat
  | .scalar e => e.nesting
  | .array _ es => Scalar.nestingOf es
termination_by structural v => v

def Scalar.nesting : Scalar → Nat
  | .leaf _ => 0
  | .object _ body => body.nesting + 1
termination_by structural e => e

def Body.nesting : Body → Nat
  | .fields fs => Variant.nestingOf fs
  | .union selected => Variant.nestingOfSelected selected
termination_by structural body => body

def Scalar.nestingOf : List Scalar → Nat
  | [] => 0
  | e :: es => max e.nesting (Scalar.nestingOf es)
termination_by structural es => es

def Variant.nestingOf : List (String × Variant) → Nat
  | [] => 0
  | f :: fs => max (Variant.nestingOfField f) (Variant.nestingOf fs)
termination_by structural fs => fs

def Variant.nestingOfSelected : Option (String × Variant) → Nat
  | none => 0
  | some f => Variant.nestingOfField f
termination_by structural f => f

def Variant.nestingOfField : String × Variant → Nat
  | (_, v) => v.nesting
termination_by structural f => f

end

mutual

def Plant.Datum.nesting : Plant.Datum → Nat
  | .scalar _ => 0
  | .address _ => 0
  | .record _ fs => Plant.Datum.nestingOfFields fs + 1
  | .array _ ds => Plant.Datum.nestingOf ds
termination_by structural d => d

def Plant.Datum.nestingOf : List Plant.Datum → Nat
  | [] => 0
  | d :: ds => max d.nesting (Plant.Datum.nestingOf ds)
termination_by structural ds => ds

def Plant.Datum.nestingOfFields : List (String × Plant.Datum) → Nat
  | [] => 0
  | f :: fs => max (Plant.Datum.nestingOfField f) (Plant.Datum.nestingOfFields fs)
termination_by structural fs => fs

def Plant.Datum.nestingOfField : String × Plant.Datum → Nat
  | (_, d) => d.nesting
termination_by structural f => f

end

section nesting
variable {n : Nat}

theorem Scalar.nestingOf_le_iff {es : List Scalar} :
    Scalar.nestingOf es ≤ n ↔ ∀ e ∈ es, e.nesting ≤ n := by
  induction es with
  | nil => simp [nestingOf]
  | cons e es ih => simp [nestingOf, ih]

theorem Variant.nestingOfField_eq (f : String × Variant) : nestingOfField f = f.2.nesting := by
  rw [nestingOfField]

theorem Variant.nestingOf_le_iff {fs : List (String × Variant)} :
    nestingOf fs ≤ n ↔ ∀ f ∈ fs, f.2.nesting ≤ n := by
  induction fs with
  | nil => simp [nestingOf]
  | cons f fs ih => simp [nestingOf, nestingOfField_eq, ih]

theorem Body.nesting_le_iff {body : Body} :
    body.nesting ≤ n ↔ ∀ f ∈ body.toList, f.2.nesting ≤ n := by
  cases body with
  | fields fs => exact Variant.nestingOf_le_iff
  | union selected =>
    cases selected with
    | none => simp [nesting, Variant.nestingOfSelected, toList]
    | some f => simp [nesting, Variant.nestingOfSelected, Variant.nestingOfField_eq, toList]

namespace Plant.Datum

theorem nestingOf_le_iff {ds : List Datum} : nestingOf ds ≤ n ↔ ∀ d ∈ ds, d.nesting ≤ n := by
  induction ds with
  | nil => simp [nestingOf]
  | cons d ds ih => simp [nestingOf, ih]

theorem nestingOfField_eq (f : String × Datum) : nestingOfField f = f.2.nesting := by
  rw [nestingOfField]

theorem nestingOfFields_le_iff {fs : List (String × Datum)} :
    nestingOfFields fs ≤ n ↔ ∀ f ∈ fs, f.2.nesting ≤ n := by
  induction fs with
  | nil => simp [nestingOfFields]
  | cons f fs ih => simp [nestingOfFields, nestingOfField_eq, ih]

end Plant.Datum
end nesting

variable {α β γ : Type} {r : Resolver} {type : NodeId} {locale : String} {limit : Nat}

theorem Builtin.Reads.nesting_eq {base : Builtin} {v : Variant} {d : Plant.Datum}
    (h : base.Reads v d) : v.nesting = 0 := by
  cases h with
  | scalar => rfl
  | array =>
    rw [Variant.nesting, ← Nat.le_zero, Scalar.nestingOf_le_iff, List.forall_mem_map]
    exact fun leaf _ => Nat.le_refl 0

theorem Plant.Datum.nesting_of_encodeElement {base : Builtin} {leaf : Leaf} {d : Plant.Datum}
    (h : d.encodeElement locale base = .ok leaf) : d.nesting = 0 := by
  cases d with
  | scalar | address => rfl
  | record | array => cases h

theorem Builtin.Writes.nesting_eq {base : Builtin} {v : Variant} {d : Plant.Datum}
    (h : base.Writes locale d v) : d.nesting = 0 := by
  cases h with
  | scalar hleaf => exact Plant.Datum.nesting_of_encodeElement hleaf
  | array hleaves =>
    rw [Plant.Datum.nesting]
    induction hleaves with
    | nil => rfl
    | cons hleaf _ ih =>
      rw [Plant.Datum.nestingOf, ih, Plant.Datum.nesting_of_encodeElement hleaf]
      rfl

mutual

theorem Typed.nesting_le : ∀ {depth type v d}, Typed r limit depth type v d →
    v.nesting ≤ limit - depth
  | _, _, _, _, .value _ hreads => hreads.nesting_eq ▸ Nat.zero_le _
  | _, _, _, _, .object _ ho => ho.nesting_lt
  | _, _, _, _, .objects _ hos => hos.nesting_le

theorem TypedObjects.nesting_le : ∀ {depth type elements ds},
    TypedObjects r limit depth type elements ds → Scalar.nestingOf elements ≤ limit - depth
  | _, _, _, _, .nil => Nat.zero_le _
  | _, _, _, _, .cons ho hos => max_le ho.nesting_lt hos.nesting_le

theorem TypedObject.nesting_lt : ∀ {depth type body a fields},
    TypedObject r limit depth type body a fields → body.nesting < limit - depth
  | depth, _, body, _, _, .intro hdepth _ _ _ _ hfields => by
    have hbody : body.nesting ≤ limit - (depth + 1) := Body.nesting_le_iff.2 fun f hf =>
      Variant.nestingOf_le_iff.1 hfields.nesting_le f (Schema.mem_arrange.2 hf)
    omega

theorem TypedFields.nesting_le : ∀ {depth s vs ds}, TypedFields r limit depth s vs ds →
    Variant.nestingOf vs ≤ limit - depth
  | _, _, _, _, .nil => Nat.zero_le _
  | _, _, _, _, .cons _ _ htyped hrest => max_le htyped.nesting_le hrest.nesting_le

end

mutual

theorem Written.nesting_le : ∀ {depth type d v}, Written r locale limit depth type d v →
    d.nesting ≤ limit - depth
  | _, _, _, _, .value _ hwrites => hwrites.nesting_eq ▸ Nat.zero_le _
  | _, _, _, _, .record _ hw => hw.nesting_lt
  | _, _, _, _, .records _ hws => hws.nesting_le

theorem WrittenRecords.nesting_le : ∀ {depth type ds elements},
    WrittenRecords r locale limit depth type ds elements →
    Plant.Datum.nestingOf ds ≤ limit - depth
  | _, _, _, _, .nil => Nat.zero_le _
  | _, _, _, _, .cons hw hws => max_le hw.nesting_lt hws.nesting_le

theorem WrittenRecord.nesting_lt : ∀ {depth type fields body},
    WrittenRecord r locale limit depth type fields body →
    Plant.Datum.nestingOfFields fields < limit - depth
  | depth, _, fields, _, .intro hdepth _ _ _ hfields => by
    have hinner : Plant.Datum.nestingOfFields fields ≤ limit - (depth + 1) :=
      Plant.Datum.nestingOfFields_le_iff.2 fun f hf =>
        Plant.Datum.nestingOfFields_le_iff.1 hfields.nesting_le f (Schema.mem_arrange.2 hf)
    omega

theorem WrittenFields.nesting_le : ∀ {depth s ds vs}, WrittenFields r locale limit depth s ds vs →
    Plant.Datum.nestingOfFields ds ≤ limit - depth
  | _, _, _, _, .nil => Nat.zero_le _
  | _, _, _, _, .cons _ _ hwritten hrest => max_le hwritten.nesting_le hrest.nesting_le

end

/-- The failure of a conversion that has room for `room` structures inside each other, where there
are `nesting` of them. -/
structure Failure.IsCut (room nesting : Nat) (f : Failure) : Prop where
  kind : f.kind = .cyclicType
  lt : room < nesting

namespace Failure.IsCut
variable {room n m : Nat} {f : Failure}

theorem of_le (h : f.IsCut room n) (hle : n ≤ m) : f.IsCut room m :=
  ⟨h.kind, Nat.lt_of_lt_of_le h.lt hle⟩

theorem succ (h : f.IsCut room n) : f.IsCut (room + 1) (n + 1) := ⟨h.kind, Nat.succ_lt_succ h.lt⟩

theorem within {step : Step} (h : f.IsCut room n) : (f.within step).IsCut room n := ⟨h.kind, h.lt⟩

end Failure.IsCut

namespace Inquiry

def Cut (r : Resolver) (P : Failure → Prop) (q' q : Inquiry Failure α) : Prop :=
  (q'.eval r).Cut P (q.eval r)

namespace Cut
variable {P Q : Failure → Prop} {q q' : Inquiry Failure α}

theorem refl (q : Inquiry Failure α) : q.Cut r P q := Except.Cut.refl _

theorem report {n n' : Note} : (Inquiry.report n').Cut r P (Inquiry.report n) := .inl rfl

theorem bind {f f' : α → Inquiry Failure β} (h : q'.Cut r P q)
    (hf : ∀ a, q'.eval r = .ok a → (f' a).Cut r P (f a)) : (q' >>= f').Cut r P (q >>= f) := by
  rw [Cut, eval_bind, eval_bind]
  exact Except.Cut.bind h hf

theorem bind_left {f f' : α → Inquiry Failure β}
    (hf : ∀ a, q.eval r = .ok a → (f' a).Cut r P (f a)) : (q >>= f').Cut r P (q >>= f) :=
  (refl q).bind hf

theorem bind_right (h : q'.Cut r P q) (f : α → Inquiry Failure β) :
    (q' >>= f).Cut r P (q >>= f) :=
  h.bind fun a _ => refl (f a)

theorem within {step : Step} (h : q'.Cut r P q) (hP : ∀ e, P e → Q (e.within step)) :
    (q'.within step).Cut r Q (q.within step) := by
  rw [Cut, eval_within, eval_within]
  exact Except.Cut.mapError h hP

theorem mapM {f f' : α → Inquiry Failure β} {l : List α} (h : ∀ a ∈ l, (f' a).Cut r P (f a)) :
    (l.mapM f').Cut r P (l.mapM f) := by
  rw [Cut, eval_mapM, eval_mapM]
  exact Except.Cut.mapM h

theorem eachIndexed {f f' : α → Inquiry Failure β} {l : List α}
    (h : ∀ a ∈ l, (f' a).Cut r P (f a)) (hP : ∀ step e, P e → P (e.within step)) :
    (eachIndexed f' l).Cut r P (eachIndexed f l) :=
  mapM fun p hp => (h p.1 (List.fst_mem_of_mem_zipIdx hp)).within (hP _)

end Cut
end Inquiry

section fields
variable {room depth depth' : Nat} {isArray : β → Bool} {nesting : β → Nat}
  {convert convert' : β → NodeId → Inquiry Failure γ}

theorem Binding.convert_cut {b : Binding β}
    (h : (convert' b.value b.field.type).Cut r (Failure.IsCut room (nesting b.value))
      (convert b.value b.field.type)) :
    (b.convert depth' isArray convert').Cut r (Failure.IsCut room (nesting b.value))
      (b.convert depth isArray convert) := by
  refine Inquiry.Cut.report.bind fun _ _ => .bind_right (.within (.bind_left fun _ _ => h) ?_) _
  exact fun _ => Failure.IsCut.within

theorem mapM_convert_cut {d : Definition} {fields : List (String × β)} {bound : List (Binding β)}
    {n : Nat} (hd : r.definition type = .ok d)
    (hbound : (bindFields type d fields).eval r = .ok bound) (hn : ∀ f ∈ fields, nesting f.2 ≤ n)
    (h : ∀ b type, (convert' b type).Cut r (Failure.IsCut room (nesting b)) (convert b type)) :
    (bound.mapM (Binding.convert depth' isArray convert')).Cut r (Failure.IsCut (room + 1) (n + 1))
      (bound.mapM (Binding.convert depth isArray convert)) := by
  refine .mapM fun b hb => (Binding.convert_cut (h _ _)).imp fun e he => ?_
  obtain ⟨f, hf, hvalue⟩ := exists_mem_of_mem_bindFields hd hbound hb
  exact (he.of_le (hvalue ▸ hn f hf)).succ

end fields

section decode
variable {room : Nat} {object object' : ExtensionObject → NodeId → Inquiry Failure Plant.Record}
  (hobject : ∀ o, (object' o type).Cut r (Failure.IsCut room (o.body.nesting + 1)) (object o type))
include hobject

theorem Scalar.decodeElement_cut (e : Scalar) :
    (e.decodeElement object' type).Cut r (Failure.IsCut room e.nesting)
      (e.decodeElement object type) := by
  cases e with
  | leaf leaf => exact .refl _
  | object t body => exact hobject ⟨t, body⟩

theorem Variant.decodeWith_cut (v : Variant) :
    (v.decodeWith object' type).Cut r (Failure.IsCut room v.nesting)
      (v.decodeWith object type) := by
  refine .bind_left fun kind _ => ?_
  cases kind with
  | value base => exact .refl _
  | structured shape =>
    simp only
    split
    next t body => exact .bind_right (hobject ⟨t, body⟩) _
    next elements =>
      refine .bind_right (.eachIndexed (fun e he => ?_) fun _ _ => Failure.IsCut.within) _
      have hle : e.nesting ≤ Scalar.nestingOf elements := Scalar.nestingOf_le_iff.1 le_rfl e he
      exact (e.decodeElement_cut hobject).imp fun _ hcut => hcut.of_le hle
    next => exact .refl _

end decode

theorem ExtensionObject.decode_cut {limit limit' room room' : Nat} (hroom : room' ≤ room)
    (o : ExtensionObject) :
    (decode limit' room' o type).Cut r (Failure.IsCut room' (o.body.nesting + 1))
      (decode limit room o type) := by
  -- By induction on the lesser room, as the walker goes; with no room left every object is cut off.
  induction room' generalizing room o type with
  | zero => exact .error ⟨rfl, Nat.succ_pos _⟩ _
  | succ room' ih =>
    match room, hroom with
    | room + 1, hroom =>
      refine .bind_left fun d hd => ?_
      split
      next => exact .bind_left fun _ h => nomatch h
      next =>
        have hd := definitionOf_eval_eq_ok_iff.1 hd
        refine Inquiry.Cut.report.bind fun _ _ => .bind_left fun bound hbound => ?_
        refine .bind_left fun address _ => .bind_right ?_ _
        refine mapM_convert_cut hd hbound (Body.nesting_le_iff.1 le_rfl) fun v type => ?_
        exact v.decodeWith_cut fun o => ih (Nat.le_of_succ_le_succ hroom) o

theorem Variant.decode_cut {s : Settings} {limit : Nat} (h : s.maxDepth ≤ limit) (v : Variant) :
    ((v.decode s type).eval r).Cut (Failure.IsCut s.maxDepth v.nesting)
      ((v.decode { s with maxDepth := limit } type).eval r) := by
  rw [decode_eval_eq, decode_eval_eq]
  exact v.decodeWith_cut fun o => o.decode_cut h

section encode
open Plant
variable {room : Nat} {record record' : Record → NodeId → Inquiry Failure ExtensionObject}
  (hrecord : ∀ rec, (record' rec type).Cut r
    (Failure.IsCut room (Datum.nestingOfFields rec.fields + 1)) (record rec type))
include hrecord

theorem Plant.Datum.encodeRecordElement_cut (d : Datum) :
    (d.encodeRecordElement record' type).Cut r (Failure.IsCut room d.nesting)
      (d.encodeRecordElement record type) := by
  cases d with
  | record t fields => exact hrecord ⟨t, fields⟩
  | _ => exact .refl _

theorem Plant.Datum.encodeWith_cut (d : Datum) :
    (d.encodeWith locale record' type).Cut r (Failure.IsCut room d.nesting)
      (d.encodeWith locale record type) := by
  refine .bind_left fun kind _ => ?_
  cases kind with
  | value base => exact .refl _
  | structured shape =>
    simp only
    split
    next t fields => exact .bind_right (hrecord ⟨t, fields⟩) _
    next elements =>
      refine .bind_right (.eachIndexed (fun d hd => ?_) fun _ _ => Failure.IsCut.within) _
      have hle : d.nesting ≤ Datum.nestingOf elements := Datum.nestingOf_le_iff.1 le_rfl d hd
      exact (d.encodeRecordElement_cut hrecord).imp fun _ hcut => hcut.of_le hle
    next => exact .refl _

end encode

theorem Plant.Record.encode_cut {limit limit' room room' : Nat} (hroom : room' ≤ room)
    (rec : Plant.Record) :
    (encode locale limit' room' rec type).Cut r
      (Failure.IsCut room' (Datum.nestingOfFields rec.fields + 1))
      (encode locale limit room rec type) := by
  induction room' generalizing room rec type with
  | zero => exact .error ⟨rfl, Nat.succ_pos _⟩ _
  | succ room' ih =>
    match room, hroom with
    | room + 1, hroom =>
      refine .bind_left fun d hd => Inquiry.Cut.report.bind fun _ _ => ?_
      refine .bind_left fun bound hbound => .bind_right ?_ _
      have hd := definitionOf_eval_eq_ok_iff.1 hd
      refine mapM_convert_cut hd hbound (Datum.nestingOfFields_le_iff.1 le_rfl) fun d type => ?_
      exact d.encodeWith_cut fun rec => ih (Nat.le_of_succ_le_succ hroom) rec

theorem Plant.Datum.encode_cut {s : Settings} {limit : Nat} (h : s.maxDepth ≤ limit) (d : Datum) :
    ((d.encode s type).eval r).Cut (Failure.IsCut s.maxDepth d.nesting)
      ((d.encode { s with maxDepth := limit } type).eval r) := by
  rw [encode_eval_eq, encode_eval_eq]
  exact d.encodeWith_cut fun rec => rec.encode_cut h

/-- A lower limit of the depth only cuts off. What is converted under it is converted alike under a
higher one; a value that nests no deeper is converted, or refused, alike under both; and no value
that nests deeper is converted. -/
theorem conversions_cut_at_nesting (r : Resolver) (s : Settings) (limit : Nat)
    (h : s.maxDepth ≤ limit) (type : NodeId) :
    (∀ v : Variant,
      Except.Cut (·.kind = .cyclicType) ((v.decode s type).eval r)
        ((v.decode { s with maxDepth := limit } type).eval r) ∧
      (v.nesting ≤ s.maxDepth →
        (v.decode s type).eval r = (v.decode { s with maxDepth := limit } type).eval r) ∧
      ∀ d, (v.decode s type).eval r = .ok d → v.nesting ≤ s.maxDepth) ∧
    ∀ d : Plant.Datum,
      Except.Cut (·.kind = .cyclicType) ((d.encode s type).eval r)
        ((d.encode { s with maxDepth := limit } type).eval r) ∧
      (d.nesting ≤ s.maxDepth →
        (d.encode s type).eval r = (d.encode { s with maxDepth := limit } type).eval r) ∧
      ∀ v, (d.encode s type).eval r = .ok v → d.nesting ≤ s.maxDepth := by
  constructor
  · intro v
    have hcut : ((v.decode s type).eval r).Cut (Failure.IsCut s.maxDepth v.nesting) _ :=
      v.decode_cut h
    refine ⟨hcut.imp fun _ => Failure.IsCut.kind, fun hn => ?_, fun d hd => ?_⟩
    · exact hcut.eq_of_forall_not fun _ hf => Nat.not_lt_of_le hn hf.lt
    · exact ((Variant.decode_eval_eq_ok_iff s).1 hd).nesting_le
  · intro d
    have hcut : ((d.encode s type).eval r).Cut (Failure.IsCut s.maxDepth d.nesting) _ :=
      d.encode_cut h
    refine ⟨hcut.imp fun _ => Failure.IsCut.kind, fun hn => ?_, fun v hv => ?_⟩
    · exact hcut.eq_of_forall_not fun _ hf => Nat.not_lt_of_le hn hf.lt
    · exact ((Plant.Datum.encode_eval_eq_ok_iff s).1 hv).nesting_le

def Tank.shallow : Settings := { Settings.standard with maxDepth := 1 }

theorem conversions_cut_at_nesting_tank :
    Tank.shallow.maxDepth ≤ 32 ∧
      (Tank.value.decode .standard Tank.tank).eval Tank.types = .ok Tank.image ∧
      ∃ f, (Tank.value.decode Tank.shallow Tank.tank).eval Tank.types = .error f ∧
        f.kind = .cyclicType := by
  have hlimit : Tank.shallow.maxDepth ≤ 32 := by decide
  have hnesting : Tank.value.nesting = 2 := by cbv
  obtain ⟨hcut, -, hle⟩ :=
    (conversions_cut_at_nesting Tank.types Tank.shallow 32 hlimit Tank.tank).1 Tank.value
  refine ⟨hlimit, Tank.decode_value, ?_⟩
  obtain heq | hf := hcut
  · have : Tank.value.nesting ≤ 1 := hle Tank.image (heq.trans Tank.decode_value)
    omega
  · exact hf

end UaBridge
