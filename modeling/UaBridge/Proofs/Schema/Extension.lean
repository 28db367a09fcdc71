import UaBridge.Proofs.Schema.Ancestry
import UaBridge.Proofs.Schema.Registry

namespace UaBridge

theorem BaseKind.isStandard_of_of? {id : NodeId} {kind : BaseKind} (h : of? id = some kind) :
    id.isStandard = true := by
  cases hid : id.isStandard with
  | true => rfl
  | false =>
    have hne {code : UInt32} : id ≠ .numeric 0 code := by
      rintro rfl
      cases hid
    simp [of?, NodeId.structureType, NodeId.unionType, NodeId.enumerationType,
      NodeId.durationType, NodeId.utcTimeType, hne, hid] at h

namespace Resolver

/-- What `r` knows of types that have a base, `r'` knows too. -/
structure Keeps (r r' : Resolver) : Prop where
  definition : ∀ id d, r.definition id = .ok d → r'.definition id = .ok d
  supertypes : ∀ type kind, r.HasBase type kind → r'.supertypes type = r.supertypes type
  ancestor : ∀ type kind, r.HasBase type kind → ∀ a ∈ r.ancestors type,
    r'.definition a = r.definition a

namespace Keeps
variable {r r' : Resolver} {type : NodeId} {kind : BaseKind} {chain : List NodeId}
  {d : Definition} {name : String} {names : List String} (h : r.Keeps r')
include h

theorem hasChain (hbase : r.HasBase type kind) (hchain : r.HasChain type chain) :
    r'.HasChain type chain :=
  ⟨(h.supertypes type kind hbase).trans hchain.1, hchain.2⟩

theorem hasBase (hbase : r.HasBase type kind) : r'.HasBase type kind := by
  cases hbase with
  | standard hstandard hkind => exact .standard hstandard hkind
  | derived hstandard hchain hlast hkind =>
    exact .derived hstandard (h.hasChain (.derived hstandard hchain hlast hkind) hchain) hlast hkind

theorem ancestors_eq (hbase : r.HasBase type kind) : r'.ancestors type = r.ancestors type := by
  rw [ancestors, ancestors, h.supertypes type kind hbase]

theorem schema_eq (hbase : r.HasBase type kind) (hd : r.definition type = .ok d) :
    r'.schema type = r.schema type := by
  have hfields : ∀ a ∈ r.ancestors type, r'.fieldsOf a = r.fieldsOf a := fun a ha => by
    rw [fieldsOf, fieldsOf, h.ancestor type kind hbase a ha]
  rw [schema_of_definition hd, schema_of_definition (h.definition type d hd),
    h.ancestors_eq hbase, List.flatMap_congr hfields]

theorem inherits (hinherits : r.Inherits name chain) : r'.Inherits name chain := by
  induction hinherits with
  | here ha hd hslot => exact .here ha (h.definition _ _ hd) hslot
  | standard ha _ ih => exact .standard ha ih
  | further ha hd hslot _ ih => exact .further ha (h.definition _ _ hd) hslot ih

theorem fits (hbase : r.HasBase type kind) (hd : r.definition type = .ok d)
    (hfits : r.Fits type d names) : r'.Fits type d names := by
  have hschema := h.schema_eq hbase hd
  cases hfits with
  | record hshape hnodup hchain hdefines hslots hfilled =>
    refine .record hshape hnodup (h.hasChain hbase hchain) ?_ (by rwa [hschema]) (by rwa [hschema])
    intro a ha hstandard
    obtain ⟨d, hd⟩ := hdefines a ha hstandard
    exact ⟨d, h.definition a d hd⟩
  | empty hshape hnames => exact .empty hshape hnames
  | declared hshape hnames hslot => exact .declared hshape hnames hslot
  | inherited hshape hnames hnone hchain hinherits =>
    exact .inherited hshape hnames hnone (h.hasChain hbase hchain) (h.inherits hinherits)

end Keeps
end Resolver

namespace Registry
variable {r s : Registry} {id : NodeId} {seen chain : List NodeId} {steps steps' : Nat}

theorem climb_succ_eq_ok_iff :
    r.climb (steps + 1) seen id = .ok chain ↔
      r.parent? id = none ∧ [] = chain ∨
        ∃ parent, r.parent? id = some parent ∧ parent ∉ seen ∧
          (parent.isStandard = true ∧ [parent] = chain ∨
            parent.isStandard = false ∧ ∃ rest,
              r.climb steps (parent :: seen) parent = .ok rest ∧ parent :: rest = chain) := by
  rw [climb]
  cases hparent : r.parent? id with
  | none => simp
  | some parent =>
    by_cases hseen : parent ∈ seen
    · simp [hseen]
    · cases hstandard : parent.isStandard with
      | true => simp [hseen, hstandard]
      | false => simp [hseen, hstandard, Except.map_eq_ok_iff]

theorem supertypes_eq_ok_iff (hid : id.isStandard = false) :
    r.supertypes id = .ok chain ↔ r.climb (r.known + 1) [id] id = .ok chain ∧ chain ≠ [] := by
  rw [supertypes, if_neg (by simp [hid])]
  split
  next hnil =>
    rw [hnil]
    constructor
    · intro h
      cases h
    · rintro ⟨hchain, hne⟩
      cases hchain
      exact absurd rfl hne
  next hcons =>
    constructor
    · intro h
      exact ⟨h, fun hchain => hcons (hchain ▸ h)⟩
    · exact fun h => h.1

theorem contains_of_definition {d : Definition} (h : r.definition id = .ok d) :
    r.contains id = true := by
  rw [definition] at h
  split at h
  next hfound =>
    rw [contains, Bool.or_eq_true]
    exact .inl (Option.isSome_of_eq_some hfound)
  next => cases h

section disjoint
variable (hdisjoint : ∀ id, s.contains id = true → r.contains id = false)
include hdisjoint

theorem find?_eq_none_of_contains (h : r.contains id = true) :
    s.definitions.find? id = none ∧ s.parents.find? id = none := by
  have hs : s.contains id = false := by
    cases hs : s.contains id with
    | false => rfl
    | true => rw [hdisjoint id hs] at h; cases h
  simpa [contains, Assoc.contains_eq_false_iff] using hs

theorem definition?_extend (h : r.contains id = true) :
    (r.extend s).definition? id = r.definition? id := by
  rw [definition?, definition?, extend, Assoc.find?_merge,
    (find?_eq_none_of_contains hdisjoint h).1, Option.none_or]

theorem parent?_extend (h : r.contains id = true) : (r.extend s).parent? id = r.parent? id := by
  rw [parent?, parent?, definition?_extend hdisjoint h, extend, Assoc.find?_merge,
    (find?_eq_none_of_contains hdisjoint h).2, Option.none_or]

theorem known_le_known_extend : r.known ≤ (r.extend s).known := by
  have hdefinitions : ∀ id, s.definitions.contains id = true →
      r.definitions.contains id = false := fun id hid => by
    have h := hdisjoint id (by simp [contains, hid])
    simp only [contains, Bool.or_eq_false_iff] at h
    exact h.1
  have hparents : ∀ id, s.parents.contains id = true → r.parents.contains id = false :=
    fun id hid => by
      have h := hdisjoint id (by simp [contains, hid])
      simp only [contains, Bool.or_eq_false_iff] at h
      exact h.2
  simp only [known, extend, Assoc.size_merge hdefinitions, Assoc.size_merge hparents]
  omega

theorem climb_extend (hsteps : steps ≤ steps') (hid : id.isStandard = false)
    (hlast : ∀ base ∈ (id :: chain).getLast?, base.isStandard = true)
    (h : r.climb steps seen id = .ok chain) :
    (r.extend s).climb steps' seen id = .ok chain ∧
      ∀ a ∈ id :: chain, a.isStandard = false → r.contains a = true := by
  induction steps generalizing steps' seen id chain with
  | zero => cases h
  | succ steps ih =>
    obtain ⟨more, rfl⟩ := Nat.exists_eq_add_of_le' hsteps
    rw [climb_succ_eq_ok_iff] at h
    obtain ⟨-, rfl⟩ | ⟨parent, hparent, hseen, h⟩ := h
    · -- Only here could the extension go on, but such a chain does not end in namespace 0.
      simp [hid] at hlast
    · have hcontains := contains_of_parent? hparent
      have hparent' := (parent?_extend hdisjoint hcontains).trans hparent
      obtain ⟨hstandard, rfl⟩ | ⟨hstandard, rest, hrest, rfl⟩ := h
      · refine ⟨climb_succ_eq_ok_iff.2 (.inr ⟨parent, hparent', hseen, .inl ⟨hstandard, rfl⟩⟩), ?_⟩
        simp [hcontains, hstandard]
      · obtain ⟨hclimb, hall⟩ := ih (Nat.le_of_succ_le_succ hsteps) hstandard (by simpa using hlast)
          hrest
        refine ⟨climb_succ_eq_ok_iff.2 (.inr ⟨parent, hparent', hseen, .inr
          ⟨hstandard, rest, hclimb, rfl⟩⟩), ?_⟩
        exact List.forall_mem_cons.2 ⟨fun _ => hcontains, hall⟩

theorem definition_extend (h : r.contains id = true) :
    (r.extend s).definition id = r.definition id := by
  rw [definition, definition, definition?_extend hdisjoint h]

theorem supertypes_extend {base : NodeId} (hid : id.isStandard = false)
    (h : r.supertypes id = .ok chain) (hlast : chain.getLast? = some base)
    (hbase : base.isStandard = true) :
    (r.extend s).supertypes id = .ok chain ∧
      ∀ a ∈ chain, a.isStandard = false → r.contains a = true := by
  obtain ⟨hclimb, hne⟩ := (supertypes_eq_ok_iff hid).1 h
  have hends : ∀ b ∈ (id :: chain).getLast?, b.isStandard = true := by
    intro b hb
    rw [List.getLast?_cons, hlast] at hb
    cases hb
    exact hbase
  obtain ⟨hclimb', hall⟩ := climb_extend hdisjoint
    (Nat.succ_le_succ (known_le_known_extend hdisjoint)) hid hends hclimb
  exact ⟨(supertypes_eq_ok_iff hid).2 ⟨hclimb', hne⟩, fun a ha => hall a (.tail id ha)⟩

theorem keeps_extend : r.resolver.Keeps (r.extend s).resolver := by
  constructor
  · intro id d hd
    exact (definition_extend hdisjoint (contains_of_definition hd)).trans hd
  · intro type kind hbase
    cases hbase with
    | standard hstandard => simp [resolver, supertypes, hstandard]
    | derived htype hchain hlast hkind =>
      have hbase := BaseKind.isStandard_of_of? hkind
      exact (supertypes_extend hdisjoint htype hchain.1 hlast hbase).1.trans hchain.1.symm
  · intro type kind hbase a ha
    cases hbase with
    | standard hstandard => simp [Resolver.ancestors, resolver, supertypes, hstandard] at ha
    | derived htype hchain hlast hkind =>
      have hbase := BaseKind.isStandard_of_of? hkind
      have hall := (supertypes_extend hdisjoint htype hchain.1 hlast hbase).2
      rw [Resolver.ancestors_of_supertypes hchain.1, List.mem_filter] at ha
      exact definition_extend hdisjoint (hall a ha.1 (by simpa using ha.2))

end disjoint
end Registry
end UaBridge
