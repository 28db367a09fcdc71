import UaBridge.Proofs.Bridge.Scalar
import UaBridge.Proofs.Plant.Record

namespace UaBridge

/-- Arrays are made by `array?`. The body of an object may have any fields. -/
inductive Variant.Made : Variant → Prop
  | leaf (leaf : Leaf) : Made (.scalar (.leaf leaf))
  | object {type} {body : Body} : (∀ f ∈ body.toList, Made f.2) → Made (.scalar (.object type body))
  | array {t es v} : (∀ e ∈ es, Made (.scalar e)) → array? t es = .ok v → Made v

inductive Variant.PartOf : Variant → Variant → Prop
  | self (v : Variant) : PartOf v v
  | element {p t es e} : e ∈ es → PartOf p (.scalar e) → PartOf p (.array t es)
  | field {p type} {body : Body} {f} : f ∈ body.toList → PartOf p f.2 →
      PartOf p (.scalar (.object type body))

/-- Scalars of an array are of its type, and names of fields are distinct. -/
def Variant.Obeys : Variant → Prop
  | .array t es => ∀ e ∈ es, e.builtin = t
  | .scalar (.object _ body) => (body.toList.map (·.1)).Nodup
  | .scalar (.leaf _) => True

def Variant.IsSound (v : Variant) : Prop := ∀ p : Variant, p.PartOf v → p.Obeys

namespace Variant
variable {type : NodeId} {body : Body} {t : Builtin} {es : List Scalar}

theorem made_leaf (leaf : Leaf) : (scalar (.leaf leaf)).Made := .leaf leaf

theorem made_object_iff : (scalar (.object type body)).Made ↔ ∀ f ∈ body.toList, f.2.Made := by
  constructor
  · intro h
    cases h with
    | object hfields => exact hfields
    | array _ h => cases (array?_eq_ok_iff.1 h).2
  · exact .object

theorem made_array_iff :
    (Variant.array t es).Made ↔ ∀ e ∈ es, (scalar e).Made ∧ e.builtin = t := by
  constructor
  · intro h
    cases h with
    | array hes h =>
      obtain ⟨hbuiltin, heq⟩ := array?_eq_ok_iff.1 h
      cases heq
      exact fun e he => ⟨hes e he, hbuiltin e he⟩
  · intro h
    exact .array (fun e he => (h e he).1) (array?_eq_ok_iff.2 ⟨fun e he => (h e he).2, rfl⟩)

theorem isSound_leaf (leaf : Leaf) : (scalar (.leaf leaf)).IsSound := by
  rintro p ⟨⟩
  trivial

theorem isSound_object (hnodup : (body.toList.map (·.1)).Nodup)
    (hfields : ∀ f ∈ body.toList, f.2.IsSound) : (scalar (.object type body)).IsSound := by
  intro p hp
  cases hp with
  | self => exact hnodup
  | field hf hp => exact hfields _ hf p hp

theorem isSound_array (hbuiltin : ∀ e ∈ es, e.builtin = t) (hes : ∀ e ∈ es, (scalar e).IsSound) :
    (array t es).IsSound := by
  intro p hp
  cases hp with
  | self => exact hbuiltin
  | element he hp => exact hes _ he p hp

end Variant

namespace Plant.Datum

inductive Made : Datum → Prop
  | scalar (s : Scalar) : Made (.scalar s)
  | address (a : Address) : Made (.address a)
  | array {kind ds d} : (∀ e ∈ ds, Made e) → array? kind ds = .ok d → Made d
  | empty (type : Address) : Made (Record.empty type).toDatum
  | push {rec rec' : Record} {name d} : Made rec.toDatum → Made d → rec.push name d = .ok rec' →
      Made rec'.toDatum

inductive PartOf : Datum → Datum → Prop
  | self (d : Datum) : PartOf d d
  | element {p kind ds d} : d ∈ ds → PartOf p d → PartOf p (.array kind ds)
  | field {p type fields f} : f ∈ fields → PartOf p f.2 → PartOf p (.record type fields)

def Obeys : Datum → Prop
  | .array kind ds => ∀ d ∈ ds, d.elementKind? = some kind
  | .record _ fields => (fields.map (·.1)).Nodup
  | .scalar _ | .address _ => True

def IsSound (d : Datum) : Prop := ∀ p : Datum, p.PartOf d → p.Obeys

variable {kind : Kind} {ds : List Datum} {type : Address} {fields : List (String × Datum)}
  {d : Datum} {rec rec' : Record}

theorem isSound_scalar (s : Scalar) : (scalar s).IsSound := by
  rintro p ⟨⟩
  trivial

theorem isSound_address (a : Address) : (address a).IsSound := by
  rintro p ⟨⟩
  trivial

theorem isSound_array_iff :
    (array kind ds).IsSound ↔ ∀ d ∈ ds, d.IsSound ∧ d.elementKind? = some kind := by
  constructor
  · exact fun h d hd => ⟨fun p hp => h p (.element hd hp), h _ (.self _) d hd⟩
  · intro h p hp
    cases hp with
    | self => exact fun d hd => (h d hd).2
    | element hd hp => exact (h _ hd).1 p hp

theorem isSound_record_iff :
    (record type fields).IsSound ↔ (fields.map (·.1)).Nodup ∧ ∀ f ∈ fields, f.2.IsSound := by
  constructor
  · exact fun h => ⟨h _ (.self _), fun f hf p hp => h p (.field hf hp)⟩
  · rintro ⟨hnodup, hfields⟩ p hp
    cases hp with
    | self => exact hnodup
    | field hf hp => exact hfields _ hf p hp

theorem isSound_push (hrec : rec.toDatum.IsSound) {name : String} (hd : d.IsSound)
    (h : rec.push name d = .ok rec') : rec'.toDatum.IsSound := by
  obtain ⟨hfresh, rfl⟩ := Record.push_eq_ok_iff.1 h
  obtain ⟨hnodup, hfields⟩ := isSound_record_iff.1 hrec
  refine isSound_record_iff.2 ⟨?_, ?_⟩
  · rw [List.map_append, List.perm_append_comm.nodup_iff]
    exact List.nodup_cons.2 ⟨hfresh, hnodup⟩
  · rw [List.forall_mem_append, List.forall_mem_singleton]
    exact ⟨hfields, hd⟩

theorem Made.isSound (h : d.Made) : d.IsSound := by
  induction h with
  | scalar s => exact isSound_scalar s
  | address a => exact isSound_address a
  | array _ h ih =>
    obtain ⟨hkinds, rfl⟩ := array?_eq_ok_iff.1 h
    exact isSound_array_iff.2 fun d hd => ⟨ih d hd, hkinds d hd⟩
  | empty type => exact isSound_record_iff.2 ⟨List.nodup_nil, by simp [Record.empty]⟩
  | push _ _ h ihrec ihd => exact isSound_push ihrec ihd h

theorem Made.foldlM_push (hrec : rec.toDatum.Made) (hfields : ∀ f ∈ fields, f.2.Made)
    (h : fields.foldlM (fun rec f => rec.push f.1 f.2) rec = .ok rec') : rec'.toDatum.Made := by
  induction fields generalizing rec with
  | nil => cases h; exact hrec
  | cons f fields ih =>
    rw [List.forall_mem_cons] at hfields
    rw [List.foldlM_cons, Except.bind_eq_ok_iff] at h
    obtain ⟨next, hnext, h⟩ := h
    exact ih (.push hrec hfields.1 hnext) hfields.2 h

theorem Made.ofFields (hfields : ∀ f ∈ fields, f.2.Made)
    (h : Record.ofFields type fields = .ok rec) : rec.toDatum.Made :=
  foldlM_push (.empty type) hfields h

mutual

theorem made_of_isSound : (d : Datum) → d.IsSound → d.Made
  | .scalar s, _ => .scalar s
  | .address a, _ => .address a
  | .array _ ds, h =>
    .array (made_of_isSound_elements ds fun d hd => (isSound_array_iff.1 h d hd).1)
      (array?_eq_ok_iff.2 ⟨fun d hd => (isSound_array_iff.1 h d hd).2, rfl⟩)
  | .record _ fields, h =>
    .ofFields (made_of_isSound_fields fields (isSound_record_iff.1 h).2)
      (Record.ofFields_eq_ok_iff.2 ⟨(isSound_record_iff.1 h).1, rfl⟩)

theorem made_of_isSound_elements : (ds : List Datum) → (∀ d ∈ ds, d.IsSound) → ∀ d ∈ ds, d.Made
  | [], _ => by simp
  | d :: ds, h => List.forall_mem_cons.2 ⟨made_of_isSound d (h d List.mem_cons_self),
      made_of_isSound_elements ds fun e he => h e (List.mem_cons_of_mem d he)⟩

theorem made_of_isSound_fields : (fs : List (String × Datum)) → (∀ f ∈ fs, f.2.IsSound) →
    ∀ f ∈ fs, f.2.Made
  | [], _ => by simp
  | f :: fs, h => List.forall_mem_cons.2 ⟨made_of_isSound_field f (h f List.mem_cons_self),
      made_of_isSound_fields fs fun g hg => h g (List.mem_cons_of_mem f hg)⟩

theorem made_of_isSound_field : (f : String × Datum) → f.2.IsSound → f.2.Made
  | (_, d), h => made_of_isSound d h

end

theorem made_iff : d.Made ↔ d.IsSound := ⟨Made.isSound, made_of_isSound d⟩

end Plant.Datum
end UaBridge
