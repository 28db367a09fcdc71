import UaBridge.Proofs.Bridge.Canonical
import UaBridge.Proofs.Bridge.Questions
import UaBridge.Proofs.Schema.Supply
import UaBridge.Proofs.Session

namespace UaBridge

theorem BaseKind.eq_of_structured {id : NodeId} {shape : Shape}
    (h : of? id = some (.structured shape)) : id = .structureType ∨ id = .unionType := by
  by_contra hne
  rw [not_or] at hne
  rw [of?, if_neg hne.1, if_neg hne.2] at h
  grind [Option.map_eq_some_iff]

namespace Resolver
variable {r : Resolver} {type t : NodeId} {kind : BaseKind}

theorem HasBase.endsIn (h : r.HasBase type kind) (htype : type.isStandard = false) :
    r.EndsIn type kind := by
  cases h with
  | standard hstandard => rw [htype] at hstandard; cases hstandard
  | derived _ hchain hbase hkind => exact ⟨_, _, hchain.1, hbase, hkind⟩

/-- No field of a type behind `type` may have any structure or any union for a value. -/
def Specific (r : Resolver) (type : NodeId) : Prop :=
  ∀ t shape, r.Behind type t → r.EndsIn t (.structured shape) →
    ∀ f ∈ r.schema t, f.type ≠ .structureType ∧ f.type ≠ .unionType

theorem covered_behind {P : Query → Prop} (hspecific : r.Specific type)
    (h : ∀ t q, r.Behind type t → r.Needs t q → P q) :
    r.Covered P fun t => r.Behind type t ∨
      t.isStandard ∧ t ≠ .structureType ∧ t ≠ .unionType := by
  have hbehind {t : NodeId} {shape : Shape} (hbase : r.HasBase t (.structured shape))
      (ht : r.Behind type t ∨ t.isStandard ∧ t ≠ .structureType ∧ t ≠ .unionType) :
      r.Behind type t ∧ r.EndsIn t (.structured shape) := by
    cases ht with
    | inl ht => exact ⟨ht, hbase.endsIn ht.isStandard_eq⟩
    | inr ht =>
      obtain ⟨hstandard, hstructure, hunion⟩ := ht
      cases hbase with
      | standard _ hkind =>
        exact absurd (BaseKind.eq_of_structured hkind) (not_or.2 ⟨hstructure, hunion⟩)
      | derived hnonstandard => rw [hstandard] at hnonstandard; cases hnonstandard
  constructor
  · intro t ht hstandard
    cases ht with
    | inl ht => exact h t _ ht .supertypes
    | inr ht => rw [hstandard] at ht; cases ht.1
  · intro t shape ht hbase
    exact h t _ (hbehind hbase ht).1 .supertypes
  · intro t shape ht hbase a ha
    exact h t _ (hbehind hbase ht).1 (.definition (hbehind hbase ht).2 ha)
  · intro t shape ht hbase f hf
    obtain ⟨ht, hends⟩ := hbehind hbase ht
    cases hstandard : f.type.isStandard with
    | false => exact .inl (.field ht hends hf hstandard)
    | true => exact .inr ⟨rfl, hspecific t shape ht hends f hf⟩

end Resolver

/-- The operations `before` lead to any state that a cache in front of the registry can be in. Once
the preload of a type has succeeded, and until the cache is cleared, a conversion from or to this
type asks no source anything: it has the same outcome with every source. -/
theorem Cache.suffices_of_preload (g : Registry) (before after : List Operation) (type : NodeId)
    (htype : type.isStandard = false)
    (hok : (preload type (Operation.runAll Source.backend before
      (.empty, ⟨g, none, [], []⟩)).2).1 = .ok ())
    (hspecific : g.resolver.Specific type) (hafter : ∀ op ∈ after, op ≠ .clear) :
    let c := (Operation.runAll Source.backend after (preload type
      (Operation.runAll Source.backend before (.empty, ⟨g, none, [], []⟩)).2).2).2.1
    (∀ s v, c.Suffices g.resolver (Variant.decode s v type)) ∧
      ∀ s d, c.Suffices g.resolver (Plant.Datum.encode s d type) := by
  intro c
  have hb := Source.serves g
  obtain ⟨⟨c₁, s₁⟩, hrun₁, hsound₁, hs₁⟩ := Operation.runAll_keeps_sound hb before
    (sound_empty (r := g.resolver)) (s := ⟨g, none, [], []⟩) ⟨rfl, rfl⟩
  rw [hrun₁] at hok
  obtain ⟨known, c₂, s₂, -, hrun₂, hlearns₂, hs₂⟩ := preload_eq hsound₁ hs₁ type
  obtain ⟨⟨c₃, s₃⟩, hrun₃, asked, hlearns₃, -⟩ :=
    Operation.runAll_learns hb after hafter hlearns₂.sound hs₂
  have hc : c = c₃ := by simp only [c, hrun₁, hrun₂, hrun₃]
  have hholds (t : NodeId) (q : Query) (ht : g.resolver.Behind type t)
      (hq : g.resolver.Needs t q) : c.holds q = true := by
    rw [hc]
    refine hlearns₃.holds ?_
    have hpreloaded := (holds_preload_iff hsound₁ hs₁ hok q).2 (.inr ⟨t, ht, hq⟩)
    rwa [hrun₂] at hpreloaded
  have hsound : c.Sound g.resolver := hc ▸ hlearns₃.sound
  have hcovered := Resolver.covered_behind hspecific hholds
  have hbehind := Resolver.Behind.self (r := g.resolver) htype
  exact ⟨fun s v => hsound.suffices (v.decode_asksOnly hcovered s (.inl hbehind)),
    fun s d => hsound.suffices (d.encode_asksOnly hcovered s (.inl hbehind))⟩

theorem Registry.specific_of_forall {g : Registry} {type : NodeId}
    (h : ∀ d ∈ g.definitions.entries.map (·.2), ∀ f ∈ d.fields,
      f.type ≠ .structureType ∧ f.type ≠ .unionType) :
    g.resolver.Specific type := by
  intro t shape _ _ f hf
  obtain ⟨a, -, hfield⟩ := List.mem_flatMap.1 hf
  cases hd : g.definitions.find? a with
  | none => simp [Resolver.fieldsOf, resolver, definition, definition?, hd] at hfield
  | some d =>
    have hdefinition : g.resolver.definition a = .ok d := by
      simp [resolver, definition, definition?, hd]
    rw [Resolver.fieldsOf_of_definition hdefinition] at hfield
    exact h d (Assoc.mem_values_of_find? hd) f hfield

def Tank.registry : Registry :=
  ((Registry.empty.register ⟨vessel, "Vessel", .record,
    [⟨"level", Builtin.float.typeId, false, false⟩]⟩).register
  ⟨tank, "Tank", .record,
    [⟨"counts", Builtin.uint16.typeId, true, false⟩,
      ⟨"label", Builtin.localizedText.typeId, false, true⟩,
      ⟨"inner", vessel, false, true⟩]⟩).registerSubtype tank vessel

theorem Cache.suffices_of_preload_tank :
    let before := (Operation.runAll Source.backend [.supertypes Tank.vessel, .clear]
      (.empty, ⟨Tank.registry, none, [], []⟩)).2
    let c := (Operation.runAll Source.backend [.definition .structureType]
      (preload Tank.tank before).2).2.1
    (preload Tank.tank before).1 = .ok () ∧
      c.Suffices Tank.registry.resolver (Tank.value.decode .standard Tank.tank) := by
  intro before c
  have hok : (preload Tank.tank before).1 = .ok () := by cbv
  exact ⟨hok, (suffices_of_preload Tank.registry [.supertypes Tank.vessel, .clear]
    [.definition .structureType] Tank.tank rfl hok (Registry.specific_of_forall (by decide))
    (by simp)).1 .standard Tank.value⟩

end UaBridge
