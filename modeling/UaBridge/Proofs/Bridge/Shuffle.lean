import UaBridge.Proofs.Bridge.Canonical
import UaBridge.Proofs.Bridge.Order

namespace UaBridge

mutual

/-- The same value with the fields of its structures in any order. -/
inductive Variant.Shuffled : Variant → Variant → Prop
  | scalar {e e'} : Scalar.Shuffled e e' → Variant.Shuffled (.scalar e) (.scalar e')
  | array {t es es'} : List.Forall₂ Scalar.Shuffled es es' →
      Variant.Shuffled (.array t es) (.array t es')

inductive Scalar.Shuffled : Scalar → Scalar → Prop
  | leaf {value} : Scalar.Shuffled (.leaf value) (.leaf value)
  | object {t body body'} : Body.Shuffled body body' →
      Scalar.Shuffled (.object t body) (.object t body')

inductive Body.Shuffled : Body → Body → Prop
  | fields {fs fs'} : Permuted Variant.Shuffled fs fs' → Body.Shuffled (.fields fs) (.fields fs')
  | empty : Body.Shuffled (.union none) (.union none)
  | selected {f f'} : Keyed Variant.Shuffled f f' →
      Body.Shuffled (.union (some f)) (.union (some f'))

end

inductive Plant.Datum.Shuffled : Plant.Datum → Plant.Datum → Prop
  | scalar {value} : Shuffled (.scalar value) (.scalar value)
  | address {value} : Shuffled (.address value) (.address value)
  | record {t fs fs'} : Permuted Shuffled fs fs' → Shuffled (.record t fs) (.record t fs')
  | array {kind ds ds'} : List.Forall₂ Shuffled ds ds' → Shuffled (.array kind ds) (.array kind ds')

mutual

theorem Variant.Shuffled.refl : (v : Variant) → v.Shuffled v
  | .scalar e => .scalar (Scalar.Shuffled.refl e)
  | .array _ es => .array (Scalar.Shuffled.forall₂_refl es)

theorem Scalar.Shuffled.refl : (e : Scalar) → e.Shuffled e
  | .leaf _ => .leaf
  | .object _ body => .object (Body.Shuffled.refl body)

theorem Body.Shuffled.refl : (body : Body) → body.Shuffled body
  | .fields fs => .fields (.intro (Variant.Shuffled.forall₂_keyed_refl fs) (.refl fs))
  | .union none => .empty
  | .union (some f) => .selected (Variant.Shuffled.keyed_refl f)

theorem Scalar.Shuffled.forall₂_refl : (es : List Scalar) → List.Forall₂ Scalar.Shuffled es es
  | [] => .nil
  | e :: es => .cons (Scalar.Shuffled.refl e) (Scalar.Shuffled.forall₂_refl es)

theorem Variant.Shuffled.forall₂_keyed_refl :
    (fs : List (String × Variant)) → List.Forall₂ (Keyed Variant.Shuffled) fs fs
  | [] => .nil
  | f :: fs => .cons (Variant.Shuffled.keyed_refl f) (Variant.Shuffled.forall₂_keyed_refl fs)

theorem Variant.Shuffled.keyed_refl : (f : String × Variant) → Keyed Variant.Shuffled f f
  | (_, v) => .intro (Variant.Shuffled.refl v)

end

mutual

theorem Plant.Datum.Shuffled.refl : (d : Plant.Datum) → d.Shuffled d
  | .scalar _ => .scalar
  | .address _ => .address
  | .record _ fs => .record (.intro (Plant.Datum.Shuffled.forall₂_keyed_refl fs) (.refl fs))
  | .array _ ds => .array (Plant.Datum.Shuffled.forall₂_refl ds)

theorem Plant.Datum.Shuffled.forall₂_refl :
    (ds : List Plant.Datum) → List.Forall₂ Plant.Datum.Shuffled ds ds
  | [] => .nil
  | d :: ds => .cons (Plant.Datum.Shuffled.refl d) (Plant.Datum.Shuffled.forall₂_refl ds)

theorem Plant.Datum.Shuffled.forall₂_keyed_refl :
    (fs : List (String × Plant.Datum)) → List.Forall₂ (Keyed Plant.Datum.Shuffled) fs fs
  | [] => .nil
  | f :: fs =>
    .cons (Plant.Datum.Shuffled.keyed_refl f) (Plant.Datum.Shuffled.forall₂_keyed_refl fs)

theorem Plant.Datum.Shuffled.keyed_refl :
    (f : String × Plant.Datum) → Keyed Plant.Datum.Shuffled f f
  | (_, d) => .intro (Plant.Datum.Shuffled.refl d)

end

theorem Body.shuffled_of_perm {fs fs' : List (String × Variant)} (h : fs.Perm fs') :
    (Body.fields fs).Shuffled (.fields fs') :=
  .fields (.intro (Variant.Shuffled.forall₂_keyed_refl fs) h)

theorem Plant.Datum.shuffled_of_perm {t : Plant.Address} {fs fs' : List (String × Plant.Datum)}
    (h : fs.Perm fs') : (Plant.Datum.record t fs).Shuffled (.record t fs') :=
  .record (.intro (Plant.Datum.Shuffled.forall₂_keyed_refl fs) h)

section decode
variable {r : Resolver} {type : NodeId} {v w : Variant} {e e' : Scalar} {body body' : Body}

theorem Body.Shuffled.shape_eq (h : body.Shuffled body') : body.shape = body'.shape := by
  cases h <;> rfl

theorem Body.Shuffled.permuted (h : body.Shuffled body') :
    Permuted Variant.Shuffled body.toList body'.toList := by
  cases h with
  | fields h => exact h
  | empty => exact .intro .nil .nil
  | selected h => exact .intro (.cons h .nil) (.refl _)

theorem Variant.Shuffled.isArray_eq (h : v.Shuffled w) : v.isArray = w.isArray := by
  cases h <;> rfl

theorem Scalar.Shuffled.decode_eq (h : e.Shuffled e') (base : Builtin) :
    e.decode base = e'.decode base := by
  cases h <;> rfl

theorem Variant.Shuffled.decodeAs_agree (h : v.Shuffled w) (base : Builtin) :
    (v.decodeAs base).Agree Failure.Alike Eq (w.decodeAs base) := by
  cases h with
  | scalar h =>
    rw [decodeAs, decodeAs, h.decode_eq]
    exact .refl Failure.Alike.refl _
  | array h =>
    rw [decodeAs, decodeAs]
    split
    next =>
      refine .bind (eachIndexed_agree (h.imp fun e e' he => ?_)) ?_
      · rw [he.decode_eq]
        exact .refl Failure.Alike.refl _
      · rintro ds _ _ _ rfl
        exact .refl Failure.Alike.refl _
    next => exact .error (.refl _)

section object
variable {object : ExtensionObject → NodeId → Inquiry Failure Plant.Record}
  (hobject : ∀ t body body', body.Shuffled body' →
    (object ⟨t, body⟩ type).Agree r Eq (object ⟨t, body'⟩ type))
include hobject

theorem Scalar.Shuffled.decodeElement_agree (h : e.Shuffled e') :
    (e.decodeElement object type).Agree r Eq (e'.decodeElement object type) := by
  cases h with
  | leaf => exact .refl _
  | object h => exact hobject _ _ _ h

theorem Variant.Shuffled.decodeWith_agree (h : v.Shuffled w) :
    (v.decodeWith object type).Agree r Eq (w.decodeWith object type) := by
  refine .bind_left fun kind _ => ?_
  cases kind with
  | value base => exact .ofExcept (h.decodeAs_agree base)
  | structured shape =>
    cases h with
    | scalar h =>
      cases h with
      | leaf => exact .refl _
      | object h =>
        exact (hobject _ _ _ h).bind_right _
    | @array t es es' h =>
      by_cases ht : t = .extensionObject
      · subst ht
        exact .bind_right
          (.eachIndexed (h.imp fun _ _ => Scalar.Shuffled.decodeElement_agree hobject)) _
      · -- No other element type is convertible, and the failure tells nothing of the elements.
        cases t <;> first | exact absurd rfl ht | exact .fail (.refl _)

end object

theorem Body.Shuffled.decode_agree {limit room : Nat} {t : NodeId} (h : body.Shuffled body') :
    (ExtensionObject.decode limit room ⟨t, body⟩ type).Agree r Eq
      (ExtensionObject.decode limit room ⟨t, body'⟩ type) := by
  -- By induction on the room, as the walker goes; `bindFields_agree` relates the values inside.
  induction room generalizing t body body' type with
  | zero => exact .refl _
  | succ room ih =>
    refine .bind_left fun d hd => ?_
    rw [h.shape_eq]
    split
    next => exact .bind_left fun _ h => nomatch h
    next =>
      have hreport {n n' : Note} : (Inquiry.report n).Agree r Eq (Inquiry.report n') := .ok rfl
      refine hreport.bind fun _ _ _ _ _ => ?_
      refine (bindFields_agree (definitionOf_eval_eq_ok_iff.1 hd) h.permuted).bind ?_
      intro bound bound' _ _ hbound
      refine .bind_left fun address _ => .bind_right ?_ _
      exact mapM_convert_agree hbound (fun _ _ => Variant.Shuffled.isArray_eq) fun _ _ _ hv =>
        hv.decodeWith_agree fun _ _ _ => ih

theorem Variant.Shuffled.decode_agree (h : v.Shuffled w) (s : Settings) :
    (v.decode s type).Agree r Eq (w.decode s type) :=
  (h.decodeWith_agree fun _ _ _ => Body.Shuffled.decode_agree).bind_right _

end decode

namespace Plant.Datum.Shuffled
variable {r : Resolver} {type : NodeId} {locale : String} {d e : Datum}
  {fields fields' : List (String × Datum)}

theorem form_eq (h : d.Shuffled e) : d.form = e.form := by
  cases h <;> rfl

theorem isArray_eq (h : d.Shuffled e) : d.isArray = e.isArray := by
  rw [isArray, isArray, h.form_eq]

theorem encodeElement_eq (h : d.Shuffled e) (target : Builtin) :
    d.encodeElement locale target = e.encodeElement locale target := by
  cases h <;> rfl

theorem encodeAs_agree (h : d.Shuffled e) (target : Builtin) :
    (d.encodeAs locale target).Agree Failure.Alike Eq (e.encodeAs locale target) := by
  cases h with
  | scalar => exact .refl Failure.Alike.refl _
  | address => exact .refl Failure.Alike.refl _
  | record => exact .error (.refl _)
  | array h =>
    refine .bind (eachIndexed_agree (h.imp fun d e he => ?_)) ?_
    · rw [he.encodeElement_eq]
      exact .refl Failure.Alike.refl _
    · rintro leaves _ _ _ rfl
      exact .refl Failure.Alike.refl _

section record
variable {record : Record → NodeId → Inquiry Failure ExtensionObject}
  (hrecord : ∀ t fields fields', Permuted Shuffled fields fields' →
    (record ⟨t, fields⟩ type).Agree r Eq (record ⟨t, fields'⟩ type))
include hrecord

theorem encodeRecordElement_agree (h : d.Shuffled e) :
    (d.encodeRecordElement record type).Agree r Eq (e.encodeRecordElement record type) := by
  cases h with
  | record h => exact hrecord _ _ _ h
  | _ => exact .refl _

theorem encodeWith_agree (h : d.Shuffled e) :
    (d.encodeWith locale record type).Agree r Eq (e.encodeWith locale record type) := by
  refine .bind_left fun kind _ => ?_
  cases kind with
  | value base => exact .ofExcept (h.encodeAs_agree base)
  | structured shape =>
    cases h with
    | scalar => exact .refl _
    | address => exact .refl _
    | record h => exact (hrecord _ _ _ h).bind_right _
    | @array kind ds es h =>
      by_cases hkind : kind = .record
      · subst hkind
        exact .bind_right (.eachIndexed (h.imp fun _ _ => encodeRecordElement_agree hrecord)) _
      · cases kind <;> first | exact absurd rfl hkind | exact .fail (.refl _)

end record

theorem encode_record_agree {limit room : Nat} {t : Address}
    (h : Permuted Shuffled fields fields') :
    (Record.encode locale limit room ⟨t, fields⟩ type).Agree r Eq
      (Record.encode locale limit room ⟨t, fields'⟩ type) := by
  induction room generalizing t fields fields' type with
  | zero => exact .refl _
  | succ room ih =>
    refine .bind_left fun d hd => ?_
    have hreport {n n' : Note} : (Inquiry.report n).Agree r Eq (Inquiry.report n') := .ok rfl
    refine hreport.bind fun _ _ _ _ _ => ?_
    refine (bindFields_agree (definitionOf_eval_eq_ok_iff.1 hd) h).bind ?_
    intro bound bound' _ _ hbound
    refine .bind_right ?_ _
    exact mapM_convert_agree hbound (fun _ _ => isArray_eq) fun _ _ _ hd =>
      hd.encodeWith_agree fun _ _ _ => ih

theorem encode_agree (h : d.Shuffled e) (s : Settings) :
    (d.encode s type).Agree r Eq (e.encode s type) := by
  refine (h.encodeWith_agree fun _ _ _ => encode_record_agree).bind ?_
  rintro v _ _ _ rfl
  rw [isComposite, isComposite, h.form_eq]
  split
  next => exact .ok rfl
  next => exact .refl _

end Plant.Datum.Shuffled

/-- The order of fields is irrelevant. Values that differ in nothing else are converted to the same
value, or neither of them can be converted, for the same kind of reason. -/
theorem conversions_agree_of_shuffled (r : Resolver) (s : Settings) (type : NodeId) :
    (∀ v w : Variant, v.Shuffled w →
      ((v.decode s type).eval r).Agree Failure.Alike Eq ((w.decode s type).eval r)) ∧
    ∀ d e : Plant.Datum, d.Shuffled e →
      ((d.encode s type).eval r).Agree Failure.Alike Eq ((e.encode s type).eval r) :=
  ⟨fun _ _ h => h.decode_agree s, fun _ _ h => h.encode_agree s⟩

def Tank.reordered : Variant :=
  .scalar (.object .null (.fields
    [("inner", .scalar (.object tank (.fields [("level", .scalar (.leaf (.float ⟨0⟩)))]))),
      ("level", .scalar (.leaf (.float ⟨0x40490fdb⟩))),
      ("counts", .array .uint16 [.leaf (.uint16 7), .leaf (.uint16 65535)])]))

def Tank.reorderedImage : Plant.Datum :=
  .record (.string 1 "Tank")
    [("inner", .record (.numeric 1 1) [("level", .scalar (.float ⟨0⟩))]),
      ("counts", .array (.scalar .uint) [.scalar (.uint 7), .scalar (.uint 65535)]),
      ("level", .scalar (.float ⟨0x40490fdb⟩))]

theorem conversions_agree_of_shuffled_tank :
    (Tank.value.Shuffled Tank.reordered ∧
      (Tank.value.decode .standard Tank.tank).eval Tank.types = .ok Tank.image ∧
      (Tank.reordered.decode .standard Tank.tank).eval Tank.types = .ok Tank.image) ∧
    Tank.image.Shuffled Tank.reorderedImage ∧
      (Tank.image.encode .standard Tank.tank).eval Tank.types =
        .ok (Tank.value.canonical Tank.types Tank.tank) ∧
      (Tank.reorderedImage.encode .standard Tank.tank).eval Tank.types =
        .ok (Tank.value.canonical Tank.types Tank.tank) := by
  have hagree := conversions_agree_of_shuffled Tank.types .standard Tank.tank
  have hvalue : Tank.value.Shuffled Tank.reordered :=
    .scalar (.object (Body.shuffled_of_perm (.swap _ _ _)))
  have himage : Tank.image.Shuffled Tank.reorderedImage :=
    Plant.Datum.shuffled_of_perm (.swap _ _ _)
  exact ⟨⟨hvalue, Tank.decode_value, (hagree.1 _ _ hvalue).eq_ok Tank.decode_value⟩, himage,
    Tank.encode_image, (hagree.2 _ _ himage).eq_ok Tank.encode_image⟩

end UaBridge
