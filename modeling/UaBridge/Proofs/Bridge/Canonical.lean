import UaBridge.Proofs.Bridge.Typing
import UaBridge.Proofs.Bridge.Writing

/-!
The canonical form of a value of a declared type: objects say the type that they are declared as, and
their fields stand in schema order. Reading a value and writing it back yields its canonical form.
-/

namespace UaBridge

variable {r : Resolver} {locale : String} {limit depth : Nat} {type : NodeId}

mutual

/-- The value with each object tagged with its declared type and the fields in schema order. -/
def Variant.canonical (r : Resolver) (type : NodeId) : Variant → Variant
  | .scalar s => .scalar (s.canonical r type)
  | .array elementType elements => .array elementType (Scalar.canonicalElements r type elements)
termination_by structural v => v

def Scalar.canonical (r : Resolver) (type : NodeId) : Scalar → Scalar
  | .leaf leaf => .leaf leaf
  | .object _ body => .object type (body.canonical r type)
termination_by structural s => s

def Body.canonical (r : Resolver) (type : NodeId) : Body → Body
  | .fields fs => .fields ((r.schema type).arrange (Variant.canonicalFields r (r.schema type) fs))
  | .union selected => .union (Variant.canonicalSelected r (r.schema type) selected)
termination_by structural b => b

def Scalar.canonicalElements (r : Resolver) (type : NodeId) : List Scalar → List Scalar
  | [] => []
  | e :: es => e.canonical r type :: Scalar.canonicalElements r type es
termination_by structural es => es

def Variant.canonicalFields (r : Resolver) (s : Schema) :
    List (String × Variant) → List (String × Variant)
  | [] => []
  | f :: fs => Variant.canonicalField r s f :: Variant.canonicalFields r s fs
termination_by structural fs => fs

def Variant.canonicalSelected (r : Resolver) (s : Schema) :
    Option (String × Variant) → Option (String × Variant)
  | none => none
  | some f => some (Variant.canonicalField r s f)
termination_by structural f => f

def Variant.canonicalField (r : Resolver) (s : Schema) : String × Variant → String × Variant
  | (name, v) => (name, match s.slot? name with
    | some field => v.canonical r field.type
    | none => v)
termination_by structural f => f

end

mutual

def Variant.IsCanonical (r : Resolver) (type : NodeId) : Variant → Prop
  | .scalar s => s.IsCanonical r type
  | .array _ elements => Scalar.AreCanonical r type elements
termination_by structural v => v

def Scalar.IsCanonical (r : Resolver) (type : NodeId) : Scalar → Prop
  | .leaf _ => True
  | .object t body => t = type ∧ body.IsCanonical r type
termination_by structural s => s

def Body.IsCanonical (r : Resolver) (type : NodeId) : Body → Prop
  | .fields fs =>
    fs.Pairwise (fun f g => (r.schema type).place f.1 ≤ (r.schema type).place g.1) ∧
      Variant.AreCanonical r (r.schema type) fs
  | .union selected => Variant.SelectedIsCanonical r (r.schema type) selected
termination_by structural b => b

def Scalar.AreCanonical (r : Resolver) (type : NodeId) : List Scalar → Prop
  | [] => True
  | e :: es => e.IsCanonical r type ∧ Scalar.AreCanonical r type es
termination_by structural es => es

def Variant.AreCanonical (r : Resolver) (s : Schema) : List (String × Variant) → Prop
  | [] => True
  | f :: fs => Variant.FieldIsCanonical r s f ∧ Variant.AreCanonical r s fs
termination_by structural fs => fs

def Variant.SelectedIsCanonical (r : Resolver) (s : Schema) : Option (String × Variant) → Prop
  | none => True
  | some f => Variant.FieldIsCanonical r s f
termination_by structural f => f

def Variant.FieldIsCanonical (r : Resolver) (s : Schema) : String × Variant → Prop
  | (name, v) => ∀ field, s.slot? name = some field → v.IsCanonical r field.type
termination_by structural f => f

end

mutual

theorem Variant.canonical_eq_self (type : NodeId) :
    (v : Variant) → v.IsCanonical r type → v.canonical r type = v
  | .scalar s, h => congrArg Variant.scalar (Scalar.canonical_eq_self type s h)
  | .array elementType elements, h =>
    congrArg (Variant.array elementType) (Scalar.canonicalElements_eq_self type elements h)

theorem Scalar.canonical_eq_self (type : NodeId) :
    (s : Scalar) → s.IsCanonical r type → s.canonical r type = s
  | .leaf leaf, _ => rfl
  | .object t body, h => by
    obtain ⟨rfl, hbody⟩ := h
    rw [Scalar.canonical, Body.canonical_eq_self t body hbody]

theorem Body.canonical_eq_self (type : NodeId) :
    (b : Body) → b.IsCanonical r type → b.canonical r type = b
  | .fields fs, h => by
    obtain ⟨hsorted, hfs⟩ := h
    rw [Body.canonical, Variant.canonicalFields_eq_self _ fs hfs,
      Schema.arrange_of_pairwise hsorted]
  | .union selected, h => by
    rw [Body.canonical, Variant.canonicalSelected_eq_self _ selected h]

theorem Scalar.canonicalElements_eq_self (type : NodeId) :
    (es : List Scalar) → Scalar.AreCanonical r type es → Scalar.canonicalElements r type es = es
  | [], _ => rfl
  | e :: es, h => by
    rw [Scalar.canonicalElements, Scalar.canonical_eq_self type e h.1,
      Scalar.canonicalElements_eq_self type es h.2]

theorem Variant.canonicalFields_eq_self (s : Schema) :
    (fs : List (String × Variant)) → Variant.AreCanonical r s fs →
      Variant.canonicalFields r s fs = fs
  | [], _ => rfl
  | f :: fs, h => by
    rw [Variant.canonicalFields, Variant.canonicalField_eq_self s f h.1,
      Variant.canonicalFields_eq_self s fs h.2]

theorem Variant.canonicalSelected_eq_self (s : Schema) :
    (f : Option (String × Variant)) → Variant.SelectedIsCanonical r s f →
      Variant.canonicalSelected r s f = f
  | none, _ => rfl
  | some f, h => congrArg some (Variant.canonicalField_eq_self s f h)

theorem Variant.canonicalField_eq_self (s : Schema) :
    (f : String × Variant) → Variant.FieldIsCanonical r s f → Variant.canonicalField r s f = f
  | (name, v), h => by
    rw [Variant.canonicalField]
    cases hslot : s.slot? name with
    | none => rfl
    | some field => exact congrArg (name, ·) (Variant.canonical_eq_self field.type v (h field hslot))

end

theorem Variant.canonicalFields_eq_map (s : Schema) (fs : List (String × Variant)) :
    canonicalFields r s fs = fs.map (canonicalField r s) := by
  induction fs with
  | nil => rfl
  | cons f fs ih => rw [canonicalFields, List.map_cons, ih]

theorem Variant.fst_canonicalField (s : Schema) (f : String × Variant) :
    (canonicalField r s f).1 = f.1 := by
  rw [canonicalField]

theorem Variant.canonicalFields_arrange (s : Schema) (fs : List (String × Variant)) :
    canonicalFields r s (s.arrange fs) = s.arrange (canonicalFields r s fs) := by
  rw [canonicalFields_eq_map, canonicalFields_eq_map]
  exact s.map_arrange (canonicalField r s) (fst_canonicalField s) fs

@[simp] theorem Variant.isArray_canonical (v : Variant) :
    (v.canonical r type).isArray = v.isArray := by
  cases v <;> rfl

namespace Body

@[simp] theorem shape_canonical (b : Body) : (b.canonical r type).shape = b.shape := by
  cases b <;> rfl

theorem toList_canonical (b : Body) :
    (b.canonical r type).toList =
      (r.schema type).arrange (Variant.canonicalFields r (r.schema type) b.toList) := by
  cases b with
  | fields fs => rfl
  | union selected =>
    cases selected with
    | none => exact (Schema.arrange_of_pairwise .nil).symm
    | some f => exact (Schema.arrange_of_pairwise (List.pairwise_singleton _ _)).symm

theorem map_fst_canonical_perm (b : Body) :
    ((b.canonical r type).toList.map (·.1)).Perm (b.toList.map (·.1)) := by
  have hnames : (Variant.canonicalFields r (r.schema type) b.toList).map (·.1) =
      b.toList.map (·.1) := by
    rw [Variant.canonicalFields_eq_map, List.map_map]
    exact List.map_congr_left fun f _ => Variant.fst_canonicalField _ f
  rw [toList_canonical, ← hnames]
  exact Schema.map_fst_arrange_perm _ _

theorem arrange_toList_canonical (b : Body) :
    (r.schema type).arrange (b.canonical r type).toList =
      Variant.canonicalFields r (r.schema type) ((r.schema type).arrange b.toList) := by
  rw [toList_canonical, Schema.arrange_arrange, Variant.canonicalFields_arrange]

end Body

theorem Scalar.canonicalElements_leaf (leaves : List Leaf) :
    canonicalElements r type (leaves.map .leaf) = leaves.map .leaf := by
  induction leaves with
  | nil => rfl
  | cons leaf leaves ih => exact congrArg (Scalar.leaf leaf :: ·) ih

theorem Builtin.Reads.canonical_eq {base : Builtin} {v : Variant} {d : Plant.Datum}
    (h : base.Reads v d) : v.canonical r type = v := by
  cases h with
  | scalar => rfl
  | array => exact congrArg (Variant.array base) (Scalar.canonicalElements_leaf _)

theorem Typed.isArray_eq {v : Variant} {d : Plant.Datum} (h : Typed r limit depth type v d) :
    d.isArray = v.isArray := by
  cases h with
  | value _ hreads => exact hreads.isArray_eq
  | object => rfl
  | objects => rfl

mutual

theorem Typed.written : ∀ {depth type v d}, Typed r limit depth type v d →
    Written r locale limit depth type d (v.canonical r type)
  | _, _, _, _, .value hbase hreads => .value hbase (hreads.canonical_eq.symm ▸ hreads.writes)
  | _, _, _, _, .object hbase ho => .record hbase ho.written
  | _, _, _, _, .objects hbase hos => .records hbase hos.written

theorem TypedObjects.written : ∀ {depth type elements ds},
    TypedObjects r limit depth type elements ds →
    WrittenRecords r locale limit depth type ds (Scalar.canonicalElements r type elements)
  | _, _, _, _, .nil => .nil
  | _, _, _, _, .cons ho hos => .cons ho.written hos.written

theorem TypedObject.written : ∀ {depth type body a fields},
    TypedObject r limit depth type body a fields →
    WrittenRecord r locale limit depth type fields (body.canonical r type)
  | _, _, body, _, _, .intro hdepth hd hshape _ hfits hfields => by
    have hcarries := typedFields_iff.1 hfields
    refine .intro hdepth hd (hshape.trans body.shape_canonical.symm)
      (hfits.perm (Schema.map_fst_perm_of_carries hcarries)) ?_
    rw [Schema.arrange_eq_of_carries hcarries, body.toList_canonical,
      ← Variant.canonicalFields_arrange]
    exact hfields.written

theorem TypedFields.written : ∀ {depth s vs ds}, TypedFields r limit depth s vs ds →
    WrittenFields r locale limit depth s ds (Variant.canonicalFields r s vs)
  | _, _, _, _, .nil => .nil
  | _, _, _, _, .cons hslot harray htyped hrest => by
    rw [Variant.canonicalFields, Variant.canonicalField, hslot]
    exact .cons hslot (htyped.isArray_eq.trans harray) htyped.written hrest.written

end

mutual

theorem Typed.canonical : ∀ {depth type v d}, Typed r limit depth type v d →
    Typed r limit depth type (v.canonical r type) d
  | _, _, _, _, .value hbase hreads => .value hbase (hreads.canonical_eq.symm ▸ hreads)
  | _, _, _, _, .object hbase ho => .object hbase ho.canonical
  | _, _, _, _, .objects hbase hos => .objects hbase hos.canonical

theorem TypedObjects.canonical : ∀ {depth type elements ds},
    TypedObjects r limit depth type elements ds →
    TypedObjects r limit depth type (Scalar.canonicalElements r type elements) ds
  | _, _, _, _, .nil => .nil
  | _, _, _, _, .cons ho hos => .cons ho.canonical hos.canonical

theorem TypedObject.canonical : ∀ {depth type body a fields},
    TypedObject r limit depth type body a fields →
    TypedObject r limit depth type (body.canonical r type) a fields
  | _, _, body, _, _, .intro hdepth hd hshape ha hfits hfields => by
    refine .intro hdepth hd (hshape.trans body.shape_canonical.symm) ha
      (hfits.perm body.map_fst_canonical_perm.symm) ?_
    rw [body.arrange_toList_canonical]
    exact hfields.canonical

theorem TypedFields.canonical : ∀ {depth s vs ds}, TypedFields r limit depth s vs ds →
    TypedFields r limit depth s (Variant.canonicalFields r s vs) ds
  | _, _, _, _, .nil => .nil
  | _, _, _, _, .cons hslot harray htyped hrest => by
    rw [Variant.canonicalFields, Variant.canonicalField, hslot]
    exact .cons hslot ((Variant.isArray_canonical _).trans harray) htyped.canonical hrest.canonical

end

/-- Reading a value and writing it back yields its canonical form, which is read as the same value.
A value that is canonical comes back as it was. -/
theorem Variant.encode_of_decode (r : Resolver) (s : Settings) (type : NodeId) (v : Variant)
    (d : Plant.Datum) (h : (v.decode s type).eval r = .ok d) :
    (d.encode s type).eval r = .ok (v.canonical r type) ∧
      ((v.canonical r type).decode s type).eval r = .ok d ∧
      (v.IsCanonical r type → (d.encode s type).eval r = .ok v) := by
  have htyped : Typed r s.maxDepth 0 type v d := (Variant.decode_eval_eq_ok_iff s).1 h
  have hencode : (d.encode s type).eval r = .ok (v.canonical r type) :=
    (Plant.Datum.encode_eval_eq_ok_iff s).2 htyped.written
  refine ⟨hencode, (Variant.decode_eval_eq_ok_iff s).2 htyped.canonical, fun hcanonical => ?_⟩
  rw [hencode, Variant.canonical_eq_self type v hcanonical]

theorem Tank.encode_image :
    (image.encode .standard tank).eval types = .ok (value.canonical types tank) :=
  (Plant.Datum.encode_eval_eq_ok_iff .standard).2
    ((Variant.decode_eval_eq_ok_iff .standard).1 decode_value).written

theorem Variant.encode_of_decode_tank :
    (Tank.value.decode .standard Tank.tank).eval Tank.types = .ok Tank.image ∧
      (Tank.image.encode .standard Tank.tank).eval Tank.types =
        .ok (Tank.value.canonical Tank.types Tank.tank) :=
  ⟨Tank.decode_value, (Variant.encode_of_decode Tank.types .standard Tank.tank Tank.value Tank.image
    Tank.decode_value).1⟩

end UaBridge
