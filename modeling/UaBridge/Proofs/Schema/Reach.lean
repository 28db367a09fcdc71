import UaBridge.Proofs.Schema.Ancestry
import UaBridge.Proofs.Schema.Questions
import UaBridge.Schema.Preload

namespace UaBridge

namespace Resolver
variable (r : Resolver)

def EndsIn (type : NodeId) (kind : BaseKind) : Prop :=
  ∃ chain base, r.supertypes type = .ok chain ∧ chain.getLast? = some base ∧
    BaseKind.of? base = some kind

/-- The types behind the fields of `type`, its own and those of its ancestors, and behind the fields
of these, namespace 0 left out. Only structured types have fields to follow. -/
inductive Behind (type : NodeId) : NodeId → Prop
  | self : type.isStandard = false → Behind type type
  | field {t shape f} : Behind type t → r.EndsIn t (.structured shape) → f ∈ r.schema t →
      f.type.isStandard = false → Behind type f.type

inductive Loads (type : NodeId) : Prop
  | value {base} : r.EndsIn type (.value base) → Loads type
  | structured {shape} : r.EndsIn type (.structured shape) →
      (∀ a ∈ type :: r.ancestors type, r.Defines a) → Loads type

inductive Needs (type : NodeId) : Query → Prop
  | supertypes : Needs type (.supertypes type)
  | definition {shape a} : r.EndsIn type (.structured shape) → a ∈ type :: r.ancestors type →
      Needs type (.definition a)

variable {r} {type t : NodeId}

theorem EndsIn.unique {kind kind' : BaseKind} (h : r.EndsIn type kind) (h' : r.EndsIn type kind') :
    kind = kind' := by
  obtain ⟨chain, base, hchain, hbase, hkind⟩ := h
  obtain ⟨chain', base', hchain', hbase', hkind'⟩ := h'
  cases hchain.symm.trans hchain'
  cases hbase.symm.trans hbase'
  exact Option.some.inj (hkind.symm.trans hkind')

theorem needs_supertypes_iff : r.Needs type (.supertypes t) ↔ type = t := by
  constructor
  · intro h
    cases h
    rfl
  · rintro rfl
    exact .supertypes

theorem needs_definition_iff {a : NodeId} :
    r.Needs type (.definition a) ↔
      ∃ shape, r.EndsIn type (.structured shape) ∧ a ∈ type :: r.ancestors type := by
  constructor
  · intro h
    cases h with
    | definition hends ha => exact ⟨_, hends, ha⟩
  · rintro ⟨shape, hends, ha⟩
    exact .definition hends ha

theorem Behind.isStandard_start (h : r.Behind type t) : type.isStandard = false := by
  induction h with
  | self htype => exact htype
  | field _ _ _ _ ih => exact ih

theorem Behind.isStandard_eq (h : r.Behind type t) : t.isStandard = false := by
  cases h with
  | self htype => exact htype
  | field _ _ _ hstandard => exact hstandard

theorem Behind.trans {u : NodeId} (h : r.Behind type t) (h' : r.Behind t u) : r.Behind type u := by
  induction h' with
  | self => exact h
  | field _ hends hf hstandard ih => exact .field ih hends hf hstandard

end Resolver

namespace Preload

def fieldTypesOf (id : NodeId) : Inquiry LookupError (List NodeId) := do
  let chain ← Inquiry.askSupertypes (fun e => e) id
  match chain.getLast?.bind BaseKind.of? with
  | none => .fail (.unknownType id)
  | some (.value _) => .done []
  | some (.structured _) =>
    let definitions ← ((id :: chain).filter fun a => !a.isStandard).mapM
      (Inquiry.askDefinition fun e => e)
    return definitions.flatMap fun d => d.fields.map (·.type)

theorem visit_succ (steps : Nat) (seen : List NodeId) (id : NodeId) :
    visit (steps + 1) seen id =
      if id.isStandard ∨ id ∈ seen then .done seen
      else fieldTypesOf id >>= fun types => types.foldlM (visit steps) (id :: seen) := by
  rw [visit, fieldTypesOf]
  split
  next => rfl
  next =>
    rw [bind_assoc]
    congr 1
    funext chain
    cases chain.getLast?.bind BaseKind.of? with
    | none => rfl
    | some kind =>
      cases kind with
      | value base => rfl
      | structured shape => simp only [bind_assoc, pure_bind]

variable {r : Resolver} {id : NodeId} {types : List NodeId}

theorem askSupertypes_eval_eq_ok {chain : List NodeId} (h : r.supertypes id = .ok chain) :
    (Inquiry.askSupertypes (fun e => e) id).eval r = .ok chain := by
  rw [Inquiry.eval_askSupertypes, h]
  rfl

theorem mapM_askDefinition_eval_eq_ok_iff {ids : List NodeId} {ds : List Definition} :
    (ids.mapM (Inquiry.askDefinition fun e => e)).eval r = .ok ds ↔
      List.Forall₂ (fun a d => r.definition a = .ok d) ids ds := by
  simp only [Inquiry.eval_mapM, Inquiry.eval_askDefinition, Except.mapM_eq_ok_iff,
    Except.mapError_eq_ok_iff]

theorem flatMap_fields_of_forall₂ {ids : List NodeId} {ds : List Definition}
    (h : List.Forall₂ (fun a d => r.definition a = .ok d) ids ds) :
    (ds.flatMap fun d => d.fields.map (·.type)) = (ids.flatMap r.fieldsOf).map (·.type) := by
  rw [Resolver.flatMap_fieldsOf h, List.map_flatMap]

theorem forall_defines_iff_exists_forall₂ {ids : List NodeId} :
    (∀ a ∈ ids, r.Defines a) ↔
      ∃ ds, List.Forall₂ (fun a d => r.definition a = .ok d) ids ds :=
  Except.exists_forall₂_iff.symm

theorem filter_cons_eq_ancestors {chain : List NodeId} (hid : id.isStandard = false)
    (hchain : r.supertypes id = .ok chain) :
    ((id :: chain).filter fun a => !a.isStandard) = id :: r.ancestors id := by
  rw [Resolver.ancestors_of_supertypes hchain, List.filter_cons_of_pos (by simp [hid])]

theorem fieldTypesOf_eval_eq_ok_iff (hid : id.isStandard = false) :
    (fieldTypesOf id).eval r = .ok types ↔
      (∃ base, r.EndsIn id (.value base) ∧ types = []) ∨
        ∃ shape, r.EndsIn id (.structured shape) ∧ (∀ a ∈ id :: r.ancestors id, r.Defines a) ∧
          types = (r.schema id).map (·.type) := by
  simp only [fieldTypesOf, Inquiry.eval_bind, Inquiry.eval_askSupertypes, Except.bind_eq_ok_iff,
    Except.mapError_eq_ok_iff]
  constructor
  · rintro ⟨chain, hchain, h⟩
    split at h
    next => cases h
    next base hkind =>
      obtain ⟨root, hroot, hkind⟩ := Option.bind_eq_some_iff.1 hkind
      cases h
      exact .inl ⟨base, ⟨chain, root, hchain, hroot, hkind⟩, rfl⟩
    next shape hkind =>
      obtain ⟨root, hroot, hkind⟩ := Option.bind_eq_some_iff.1 hkind
      rw [filter_cons_eq_ancestors hid hchain, Inquiry.eval_bind, Except.bind_eq_ok_iff] at h
      obtain ⟨ds, hds, h⟩ := h
      rw [mapM_askDefinition_eval_eq_ok_iff] at hds
      cases h
      exact .inr ⟨shape, ⟨chain, root, hchain, hroot, hkind⟩,
        forall_defines_iff_exists_forall₂.2 ⟨ds, hds⟩, flatMap_fields_of_forall₂ hds⟩
  · rintro (⟨base, ⟨chain, root, hchain, hroot, hkind⟩, rfl⟩ |
      ⟨shape, ⟨chain, root, hchain, hroot, hkind⟩, hdefines, rfl⟩)
    · exact ⟨chain, hchain, by simp [hroot, hkind]⟩
    · obtain ⟨ds, hds⟩ := forall_defines_iff_exists_forall₂.1 hdefines
      refine ⟨chain, hchain, ?_⟩
      rw [Option.bind_eq_some_iff.2 ⟨root, hroot, hkind⟩]
      simp only [filter_cons_eq_ancestors hid hchain, Inquiry.eval_bind]
      rw [mapM_askDefinition_eval_eq_ok_iff.2 hds]
      exact congrArg Except.ok (flatMap_fields_of_forall₂ hds)

theorem loads_iff_exists_fieldTypesOf (hid : id.isStandard = false) :
    r.Loads id ↔ ∃ types, (fieldTypesOf id).eval r = .ok types := by
  simp only [fieldTypesOf_eval_eq_ok_iff hid]
  constructor
  · intro h
    cases h with
    | value hends => exact ⟨[], .inl ⟨_, hends, rfl⟩⟩
    | structured hends hdefines => exact ⟨_, .inr ⟨_, hends, hdefines, rfl⟩⟩
  · rintro ⟨types, ⟨base, hends, -⟩ | ⟨shape, hends, hdefines, -⟩⟩
    · exact .value hends
    · exact .structured hends hdefines

theorem asked_fieldTypesOf_of_value {base : Builtin} (h : r.EndsIn id (.value base)) :
    (fieldTypesOf id).asked r = [.supertypes id] := by
  obtain ⟨chain, root, hchain, hroot, hkind⟩ := h
  rw [fieldTypesOf, Inquiry.asked_bind_of_ok (askSupertypes_eval_eq_ok hchain),
    Option.bind_eq_some_iff.2 ⟨root, hroot, hkind⟩]
  simp

theorem asked_fieldTypesOf_of_structured {shape : Shape} (hid : id.isStandard = false)
    (h : r.EndsIn id (.structured shape)) (hdefines : ∀ a ∈ id :: r.ancestors id, r.Defines a) :
    (fieldTypesOf id).asked r =
      .supertypes id :: (id :: r.ancestors id).map .definition := by
  obtain ⟨chain, root, hchain, hroot, hkind⟩ := h
  obtain ⟨ds, hds⟩ := forall_defines_iff_exists_forall₂.1 hdefines
  have hdefinitions := mapM_askDefinition_eval_eq_ok_iff.2 hds
  rw [fieldTypesOf, Inquiry.asked_bind_of_ok (askSupertypes_eval_eq_ok hchain),
    Option.bind_eq_some_iff.2 ⟨root, hroot, hkind⟩]
  simp only [filter_cons_eq_ancestors hid hchain]
  rw [Inquiry.asked_bind_of_ok hdefinitions, Inquiry.asked_mapM_of_ok hdefinitions]
  simp [List.map_eq_flatMap]

theorem mem_asked_fieldTypesOf_iff {q : Query} (hid : id.isStandard = false) (h : r.Loads id) :
    q ∈ (fieldTypesOf id).asked r ↔ r.Needs id q := by
  cases h with
  | value hends =>
    rw [asked_fieldTypesOf_of_value hends, List.mem_singleton]
    constructor
    · rintro rfl
      exact .supertypes
    · intro hq
      cases hq with
      | supertypes => rfl
      | definition hends' _ => cases hends.unique hends'
  | structured hends hdefines =>
    rw [asked_fieldTypesOf_of_structured hid hends hdefines, List.mem_cons, List.mem_map]
    constructor
    · rintro (rfl | ⟨a, ha, rfl⟩)
      · exact .supertypes
      · exact .definition hends ha
    · intro hq
      cases hq with
      | supertypes => exact .inl rfl
      | definition _ ha => exact .inr ⟨_, ha, rfl⟩

theorem supertypes_of_fieldTypesOf (hid : id.isStandard = false)
    (h : (fieldTypesOf id).eval r = .ok types) : ∃ chain, r.supertypes id = .ok chain := by
  obtain ⟨base, ⟨chain, root, hchain, -⟩, -⟩ | ⟨shape, ⟨chain, root, hchain, -⟩, -⟩ :=
    (fieldTypesOf_eval_eq_ok_iff hid).1 h
  · exact ⟨chain, hchain⟩
  · exact ⟨chain, hchain⟩

theorem mem_types_iff (hid : id.isStandard = false) (h : (fieldTypesOf id).eval r = .ok types)
    {t : NodeId} :
    t ∈ types ↔ ∃ shape, r.EndsIn id (.structured shape) ∧ ∃ f ∈ r.schema id, f.type = t := by
  obtain ⟨base, hends, rfl⟩ | ⟨shape, hends, -, rfl⟩ := (fieldTypesOf_eval_eq_ok_iff hid).1 h
  · constructor
    · intro ht
      cases ht
    · rintro ⟨shape, hends', -⟩
      cases hends.unique hends'
  · rw [List.mem_map]
    exact ⟨fun hf => ⟨shape, hends, hf⟩, fun ⟨_, _, hf⟩ => hf⟩

theorem behind_of_mem_types {start t : NodeId} {todo : List NodeId} (hid : id.isStandard = false)
    (h : (fieldTypesOf id).eval r = .ok types) (hstart : start ∈ types ++ todo)
    (hbehind : r.Behind start t) : ∃ start' ∈ id :: todo, r.Behind start' t := by
  cases List.mem_append.1 hstart with
  | inl hstart =>
    obtain ⟨shape, hends, f, hf, rfl⟩ := (mem_types_iff hid h).1 hstart
    have hfield : r.Behind id f.type := .field (.self hid) hends hf hbehind.isStandard_start
    exact ⟨id, List.mem_cons_self, hfield.trans hbehind⟩
  | inr hstart => exact ⟨start, List.mem_cons_of_mem id hstart, hbehind⟩

end Preload
end UaBridge
