import UaBridge.Proofs.Agreement
import UaBridge.Proofs.Bridge.Canonical

namespace UaBridge

variable {α β γ δ : Type}

/-- `x` is what comes of converting each element by `f`: the results joined, or a failure like that
of the first element that fails. -/
structure Elementwise (f : α → Except Failure β) (Joins : List β → γ → Prop) (l : List α)
    (x : Except Failure γ) : Prop where
  succeeds_iff : (∃ c, x = .ok c) ↔ ∀ a ∈ l, ∃ b, f a = .ok b
  joins : ∀ c, x = .ok c → ∃ bs, List.Forall₂ (fun a b => f a = .ok b) l bs ∧ Joins bs c
  fails : ∀ e, x = .error e → ∃ before a after g, l = before ++ a :: after ∧
    (∀ b ∈ before, ∃ c, f b = .ok c) ∧ f a = .error g ∧ e.Alike g

namespace Elementwise
variable {f : α → Except Failure β} {g : α → Except Failure δ} {Joins : List β → γ → Prop}
  {l : List α}

theorem of_eachIndexed (single : δ → β) (join : List δ → γ) (hf : ∀ a ∈ l, f a = (g a).map single)
    (hjoin : ∀ ds, List.Forall₂ (fun a d => g a = .ok d) l ds → Joins (ds.map single) (join ds)) :
    Elementwise f Joins l ((eachIndexed g l).map join) where
  succeeds_iff := by
    have hsingle : (∀ a ∈ l, ∃ b, f a = .ok b) ↔ ∀ a ∈ l, ∃ d, g a = .ok d := by
      refine forall₂_congr fun a ha => ?_
      simp [hf a ha, Except.map_eq_ok_iff]
    rw [hsingle, ← Except.exists_forall₂_iff]
    simp [Except.map_eq_ok_iff, eachIndexed_eq_ok_iff]
  joins := by
    intro c hc
    obtain ⟨ds, hds, rfl⟩ := Except.map_eq_ok_iff.1 hc
    rw [eachIndexed_eq_ok_iff] at hds
    refine ⟨ds.map single, List.forall₂_map_right_iff.2 ?_, hjoin ds hds⟩
    refine ((List.forall₂_and_left l ds).2 ⟨hf, hds⟩).imp ?_
    rintro a d ⟨ha, hd⟩
    rw [ha, hd]
    rfl
  fails := by
    intro e he
    rw [Except.map_eq_error_iff] at he
    obtain ⟨before, a, after, e', rfl, hbefore, ha, rfl⟩ := exists_first_of_eachIndexed_eq_error he
    refine ⟨before, a, after, e', rfl, fun b hb => ?_, ?_, ⟨rfl, rfl⟩⟩
    · obtain ⟨d, hd⟩ := hbefore b hb
      exact ⟨single d, by rw [hf b (by simp [hb]), hd]; rfl⟩
    · rw [hf a (by simp), ha]
      rfl

theorem of_error {e : Failure} (hne : l ≠ []) (hf : ∀ a ∈ l, ∃ g, f a = .error g ∧ e.Alike g) :
    Elementwise f Joins l (.error e) := by
  obtain ⟨a, rest, rfl⟩ := List.exists_cons_of_ne_nil hne
  obtain ⟨g, hg, halike⟩ := hf a List.mem_cons_self
  refine ⟨⟨nofun, fun hall => ?_⟩, nofun, fun e' he' => ?_⟩
  · obtain ⟨b, hb⟩ := hall a List.mem_cons_self
    cases hg.symm.trans hb
  · cases he'
    exact ⟨[], a, rest, g, rfl, by simp, hg, halike⟩

end Elementwise

def Plant.Datum.ArrayOf (ds : List Datum) (d : Datum) : Prop :=
  ∃ kind, (∀ e ∈ ds, e.elementKind? = some kind) ∧ d = .array kind ds

def Variant.ArrayOf (vs : List Variant) (v : Variant) : Prop :=
  ∃ t es, (∀ e ∈ es, Scalar.builtin e = t) ∧ vs = es.map .scalar ∧ v = .array t es

section decode
variable {r : Resolver} {type : NodeId} {t : Builtin} {es : List Scalar}

theorem Scalar.decode_of_ne {base : Builtin} {e : Scalar} (h : e.builtin ≠ base) :
    e.decode base = .error (.of (.builtinMismatch base e.builtin)) := by
  cases e with
  | leaf leaf => exact if_neg h
  | object t body => rfl

namespace Variant

theorem decodeAs_elementwise {base : Builtin} (hne : es ≠ []) (hes : ∀ e ∈ es, e.builtin = t) :
    Elementwise (fun e => (scalar e).decodeAs base) Plant.Datum.ArrayOf es
      ((array t es).decodeAs base) := by
  by_cases ht : t = base
  · subst ht
    rw [decodeAs_array]
    refine .of_eachIndexed id _ (fun e _ => ?_) fun ds hds => ?_
    · rw [decodeAs, Except.map_id]
      rfl
    · obtain ⟨leaves, hbases, -, himages⟩ := Scalar.forall₂_decode_iff.1 hds
      rw [List.map_id]
      exact ⟨_, Leaf.elementKind?_of_forall₂_image hbases himages, rfl⟩
  · rw [decodeAs, if_neg ht]
    refine .of_error hne fun e he => ⟨_, Scalar.decode_of_ne ?_, ⟨rfl, rfl⟩⟩
    rwa [hes e he]

theorem decodeWith_elementwise (object : ExtensionObject → NodeId → Inquiry Failure Plant.Record)
    (hne : es ≠ []) (hes : ∀ e ∈ es, e.builtin = t) :
    Elementwise (fun e => ((scalar e).decodeWith object type).eval r) Plant.Datum.ArrayOf es
      (((array t es).decodeWith object type).eval r) := by
  cases hkind : (baseKindOf type).eval r with
  | error f =>
    rw [decodeWith_of_error hkind]
    exact .of_error hne fun e _ => ⟨f, decodeWith_of_error hkind, .refl f⟩
  | ok kind =>
    rw [baseKindOf_eval_eq_ok_iff] at hkind
    cases kind with
    | value base =>
      simp only [decodeWith_value hkind]
      exact decodeAs_elementwise hne hes
    | structured shape =>
      by_cases ht : t = .extensionObject
      · subst ht
        rw [decodeWith_objects hkind]
        refine .of_eachIndexed Plant.Record.toDatum _ (fun e he => ?_) fun records _ => ?_
        · obtain ⟨t, body, rfl⟩ := Scalar.exists_object_of_builtin (hes e he)
          exact decodeWith_object hkind
        · exact ⟨.record, by simp [Plant.Record.toDatum, Plant.Datum.elementKind?], rfl⟩
      · have hv : (array t es).builtin ≠ .extensionObject := ht
        rw [decodeWith_of_ne hkind hv]
        refine .of_error hne fun e he => ⟨_, decodeWith_of_ne hkind ?_, ⟨rfl, rfl⟩⟩
        rwa [builtin, hes e he]

end Variant
end decode

section encode
variable {r : Resolver} {locale : String} {type : NodeId} {kind : Plant.Kind}
  {ds : List Plant.Datum}

namespace Plant.Datum

theorem isArray_of_elementKind? {d : Datum} (h : d.elementKind? = some kind) :
    d.isArray = false := by
  cases d with
  | array kind ds => cases h
  | _ => rfl

theorem encodeAs_elementwise {base : Builtin} (hds : ∀ d ∈ ds, d.elementKind? = some kind) :
    Elementwise (encodeAs locale base) Variant.ArrayOf ds
      (encodeAs locale base (.array kind ds)) := by
  rw [encodeAs_array]
  refine .of_eachIndexed (fun leaf => .scalar (.leaf leaf)) _ (fun d hd => ?_) fun leaves hl => ?_
  · exact encodeAs_of_isArray_eq_false (isArray_of_elementKind? (hds d hd))
  · refine ⟨base, leaves.map .leaf, ?_, by rw [List.map_map]; rfl, rfl⟩
    exact List.forall_mem_map.2 (builtin_of_forall₂_encodeElement hl)

theorem exists_record_of_elementKind? {d : Datum} (h : d.elementKind? = some .record) :
    ∃ t fields, d = .record t fields := by
  cases d with
  | record t fields => exact ⟨t, fields, rfl⟩
  | _ => cases h

theorem encodeWith_elementwise (record : Record → NodeId → Inquiry Failure ExtensionObject)
    (hne : ds ≠ []) (hds : ∀ d ∈ ds, d.elementKind? = some kind) :
    Elementwise (fun d => (d.encodeWith locale record type).eval r) Variant.ArrayOf ds
      (((array kind ds).encodeWith locale record type).eval r) := by
  cases hkind : (baseKindOf type).eval r with
  | error f =>
    rw [encodeWith_of_error hkind]
    exact .of_error hne fun d _ => ⟨f, encodeWith_of_error hkind, .refl f⟩
  | ok base =>
    rw [baseKindOf_eval_eq_ok_iff] at hkind
    cases base with
    | value base =>
      simp only [encodeWith_value hkind]
      exact encodeAs_elementwise hds
    | structured shape =>
      by_cases hrecord : kind = .record
      · subst hrecord
        rw [encodeWith_records hkind]
        refine .of_eachIndexed (fun o => .scalar o.toScalar) _ (fun d hd => ?_) fun objects _ => ?_
        · obtain ⟨t, fields, rfl⟩ := exists_record_of_elementKind? (hds d hd)
          exact encodeWith_record hkind
        · refine ⟨.extensionObject, objects.map ExtensionObject.toScalar, ?_, ?_, rfl⟩
          · simp [ExtensionObject.toScalar, Scalar.builtin]
          · rw [List.map_map]
            rfl
      · rw [encodeWith_of_forall_ne hkind (by simp) (by simp [hrecord])]
        refine .of_error hne fun d hd => ⟨_, encodeWith_of_forall_ne hkind ?_ ?_, ⟨rfl, rfl⟩⟩
        · rintro t fields rfl
          exact hrecord (Option.some.inj (hds _ hd)).symm
        · rintro ds' rfl
          cases hds _ hd

end Plant.Datum
end encode

/-- In either direction an array becomes the array of what its elements become one by one, and it
fails like the first of them that fails. -/
theorem convert_elementwise (r : Resolver) (s : Settings) (type : NodeId) :
    (∀ t es, es ≠ [] → (∀ e ∈ es, Scalar.builtin e = t) →
      Elementwise (fun e => ((Variant.scalar e).decode s type).eval r) Plant.Datum.ArrayOf es
        (((Variant.array t es).decode s type).eval r)) ∧
      ∀ kind ds, ds ≠ [] → (∀ d ∈ ds, Plant.Datum.elementKind? d = some kind) →
        Elementwise (fun d => (Plant.Datum.encode s d type).eval r) Variant.ArrayOf ds
          (((Plant.Datum.array kind ds).encode s type).eval r) := by
  simp only [Variant.decode_eval_eq, Plant.Datum.encode_eval_eq]
  exact ⟨fun t es => Variant.decodeWith_elementwise _, fun kind ds =>
    Plant.Datum.encodeWith_elementwise _⟩

namespace Tank

def element (type : NodeId) : Scalar :=
  .object type (.fields [("level", .scalar (.leaf (.float ⟨0⟩)))])

def blank : Plant.Datum := .record (.string 1 "Tank") []

end Tank

theorem convert_elementwise_tank :
    (∃ d, ((Variant.array .extensionObject [Tank.element .null, Tank.element Tank.tank]).decode
        .standard Tank.vessel).eval Tank.types = .ok d) ∧
      ¬∃ v, ((Plant.Datum.array .record [Tank.image, Tank.blank]).encode .standard Tank.tank).eval
        Tank.types = .ok v := by
  have hread (type : NodeId) : ((Variant.scalar (Tank.element type)).decode .standard
      Tank.vessel).eval Tank.types =
        .ok (.record (.numeric 1 1) [("level", .scalar (.float ⟨0⟩))]) := by cbv
  have hblank : (Tank.blank.encode .standard Tank.tank).eval Tank.types =
      .error (.of (.mandatoryMissing "counts" Tank.tank none)) := by cbv
  constructor
  · have h := (convert_elementwise Tank.types .standard Tank.vessel).1 .extensionObject
      [Tank.element .null, Tank.element Tank.tank] (by simp)
      (by simp [Tank.element, Scalar.builtin])
    rw [h.succeeds_iff, List.forall_mem_cons, List.forall_mem_singleton]
    exact ⟨⟨_, hread .null⟩, ⟨_, hread Tank.tank⟩⟩
  · have h := (convert_elementwise Tank.types .standard Tank.tank).2 .record
      [Tank.image, Tank.blank] (by simp)
      (by simp [Tank.image, Tank.blank, Plant.Datum.elementKind?])
    rw [h.succeeds_iff]
    intro hall
    obtain ⟨v, hv⟩ := hall Tank.blank (by simp)
    cases hblank.symm.trans hv

end UaBridge
