import Mathlib.Data.List.Chain
import Mathlib.Data.List.Perm.Subperm
import UaBridge.Proofs.Schema.Extension

/-!
The supertypes of a type in a registry as a walk from one type to its parent. The walk needs no
bound: without a repetition it cannot have more links than the registry has types.
-/

namespace UaBridge

section walks
variable {α : Type} {R : α → α → Prop} {a b c : α} {l m : List α}

def Ended (R : α → α → Prop) (l : List α) : Prop := ∀ last ∈ l.getLast?, ∀ b, ¬R last b

theorem Ended.append_right (h : Ended R (m ++ a :: l)) : Ended R (a :: l) := by
  rwa [Ended, List.getLast?_append_of_ne_nil _ (List.cons_ne_nil a l)] at h

theorem prefix_or_prefix_of_isChain (hR : Relator.RightUnique R) (hl : (a :: l).IsChain R)
    (hm : (a :: m).IsChain R) : l <+: m ∨ m <+: l := by
  induction l generalizing a m with
  | nil => exact .inl List.nil_prefix
  | cons b l ih =>
    cases m with
    | nil => exact .inr List.nil_prefix
    | cons c m =>
      rw [List.isChain_cons_cons] at hl hm
      obtain rfl := hR hl.1 hm.1
      simpa [List.prefix_cons_iff] using ih hl.2 hm.2

theorem Ended.isPrefix (hended : Ended R (a :: l)) (hR : Relator.RightUnique R)
    (hl : (a :: l).IsChain R) (hm : (a :: m).IsChain R) : m <+: l := by
  obtain ⟨more, rfl⟩ | h := prefix_or_prefix_of_isChain hR hl hm
  · cases more with
    | nil => simp
    | cons b more =>
      rw [← List.cons_append, List.isChain_append] at hm
      have hlast := List.getLast?_eq_some_getLast (List.cons_ne_nil a l)
      exact absurd (hm.2.2 _ hlast b rfl) (hended _ hlast b)
  · exact h

theorem Ended.nodup (hended : Ended R (a :: l)) (hR : Relator.RightUnique R)
    (hl : (a :: l).IsChain R) : (a :: l).Nodup := by
  induction l generalizing a with
  | nil => simp
  | cons b l ih =>
    have hrest := ih (hended.append_right (m := [a])) (List.isChain_cons_cons.1 hl).2
    refine List.nodup_cons.2 ⟨fun hmem => ?_, hrest⟩
    obtain ⟨u, v, huv⟩ := List.append_of_mem hmem
    rw [huv] at hl hended
    have hv : (a :: v).IsChain R := (List.isChain_append.1 hl.tail).2.1
    have hlonger := (Ended.append_right (m := a :: u) hended).isPrefix hR hv hl
    have := hlonger.length_le
    simp at this
    omega

theorem Ended.unique (hR : Relator.RightUnique R) (hl : (a :: l).IsChain R)
    (hlended : Ended R (a :: l)) (hm : (a :: m).IsChain R) (hmended : Ended R (a :: m)) : l = m :=
  (hmended.isPrefix hR hm hl).eq_of_length_le (hlended.isPrefix hR hl hm).length_le

/-- The first time that a walk comes back: `a` and `l` are all different, and `b` is one of them. -/
structure ComesBack (R : α → α → Prop) (a : α) (l : List α) (b : α) : Prop where
  chain : (a :: (l ++ [b])).IsChain R
  nodup : (a :: l).Nodup
  mem : b ∈ a :: l

theorem ComesBack.not_nodup (h : ComesBack R a l b) (hstart : l ++ [b] <+: m) :
    ¬(a :: m).Nodup := by
  intro hm
  have hl := ((List.prefix_cons_inj a).2 hstart).sublist.nodup hm
  rw [← List.cons_append, List.nodup_append] at hl
  exact hl.2.2 b h.mem b (List.mem_singleton_self b) rfl

theorem ComesBack.not_ended (h : ComesBack R a l b) (hR : Relator.RightUnique R)
    (hm : (a :: m).IsChain R) : ¬Ended R (a :: m) := fun hended =>
  h.not_nodup (hended.isPrefix hR hm h.chain) (hended.nodup hR hm)

theorem ComesBack.unique (h : ComesBack R a l b) (hR : Relator.RightUnique R)
    (h' : ComesBack R a m c) : b = c := by
  have hshorter {l m : List α} {b c : α} (h : ComesBack R a l b) (h' : ComesBack R a m c)
      (hstart : l ++ [b] <+: m ++ [c]) : b = c := by
    obtain heq | hstart := List.prefix_concat_iff.1 hstart
    · simpa using (List.append_inj' heq rfl).2
    · exact absurd h'.nodup (h.not_nodup hstart)
  obtain hstart | hstart := prefix_or_prefix_of_isChain hR h.chain h'.chain
  · exact hshorter h h' hstart
  · exact (hshorter h' h hstart).symm

theorem exists_of_mem_dropLast_of_isChain (hl : (a :: l).IsChain R) :
    ∀ b ∈ (a :: l).dropLast, ∃ c, R b c := by
  induction l generalizing a with
  | nil => simp
  | cons b l ih =>
    rw [List.isChain_cons_cons] at hl
    rw [List.dropLast_cons_cons, List.forall_mem_cons]
    exact ⟨⟨b, hl.1⟩, ih hl.2⟩

end walks

namespace Registry
variable {g : Registry} {id p : NodeId} {seen chain l : List NodeId} {steps : Nat}
  {answer answer' : Except LookupError (List NodeId)}

/-- The parent of a type: the one it is linked to, or else the type of all structures or unions if it
is one. -/
inductive Derives (g : Registry) (id : NodeId) : NodeId → Prop
  | linked {parent} : g.parents.find? id = some parent → Derives g id parent
  | record {d} : g.parents.find? id = none → g.definitions.find? id = some d → d.shape = .record →
      Derives g id (.numeric 0 22)
  | union {d} : g.parents.find? id = none → g.definitions.find? id = some d → d.shape = .union →
      Derives g id (.numeric 0 12756)

def Leads (g : Registry) (id parent : NodeId) : Prop :=
  id.isStandard = false ∧ g.Derives id parent

inductive Ancestry (g : Registry) (id : NodeId) : Except LookupError (List NodeId) → Prop
  | root : id.isStandard = true → Ancestry g id (.ok [])
  | unknown : id.isStandard = false → (∀ parent, ¬g.Derives id parent) →
      Ancestry g id (.error (.unknownType id))
  | cyclic {l : List NodeId} {p : NodeId} : ComesBack g.Leads id l p →
      Ancestry g id (.error (.cyclicHierarchy p))
  | ends {chain : List NodeId} {base : NodeId} : (id :: chain).IsChain g.Leads →
      chain.getLast? = some base → (base.isStandard = true ∨ ∀ parent, ¬g.Derives base parent) →
      Ancestry g id (.ok chain)

theorem parent?_eq_some_iff : g.parent? id = some p ↔ g.Derives id p := by
  constructor
  · intro h
    cases hlink : g.parents.find? id with
    | some parent =>
      simp only [parent?, hlink, Option.orElse_some, Option.some.injEq] at h
      exact h ▸ .linked hlink
    | none =>
      simp only [parent?, hlink, Option.orElse_none, Option.map_eq_some_iff] at h
      obtain ⟨d, hd, rfl⟩ := h
      cases hshape : d.shape with
      | record => simpa [root, hshape] using .record hlink hd hshape
      | union => simpa [root, hshape] using .union hlink hd hshape
  · intro h
    cases h with
    | linked hlink => simp [parent?, hlink]
    | record hlink hd hshape =>
      simp [parent?, definition?, hlink, hd, root, hshape, NodeId.structureType]
    | union hlink hd hshape =>
      simp [parent?, definition?, hlink, hd, root, hshape, NodeId.unionType]

theorem parent?_eq_none_iff : g.parent? id = none ↔ ∀ p, ¬g.Derives id p := by
  simp only [← parent?_eq_some_iff, Option.eq_none_iff_forall_ne_some]

theorem rightUnique_leads (g : Registry) : Relator.RightUnique g.Leads := by
  rintro a b c ⟨-, hb⟩ ⟨-, hc⟩
  rw [← parent?_eq_some_iff] at hb hc
  exact Option.some.inj (hb.symm.trans hc)

theorem Leads.mem_ids (h : g.Leads id p) : id ∈ g.ids :=
  mem_ids_of_contains (contains_of_parent? (parent?_eq_some_iff.2 h.2))

theorem length_le_known (hnodup : l.Nodup) (hids : ∀ a ∈ l, a ∈ g.ids) : l.length ≤ g.known := by
  rw [← length_ids]
  exact (hnodup.subperm hids).length_le

theorem ended_leads_iff {base : NodeId} (hbase : chain.getLast? = some base) :
    Ended g.Leads (id :: chain) ↔ base.isStandard = true ∨ ∀ parent, ¬g.Derives base parent := by
  simp only [Ended, Leads, List.getLast?_cons, hbase, Option.getD_some, Option.mem_some,
    forall_eq', not_and]
  cases base.isStandard <;> simp

theorem walk_of_climb (hid : id.isStandard = false) (h : g.climb steps seen id = .ok chain) :
    (id :: chain).IsChain g.Leads ∧ Ended g.Leads (id :: chain) := by
  induction steps generalizing seen id chain with
  | zero => cases h
  | succ steps ih =>
    rw [climb_succ_eq_ok_iff] at h
    obtain ⟨hparent, rfl⟩ | ⟨parent, hparent, -, h⟩ := h
    · have hnone := parent?_eq_none_iff.1 hparent
      refine ⟨List.isChain_singleton id, ?_⟩
      rintro last ⟨⟩ p hp
      exact hnone p hp.2
    · have hleads : g.Leads id parent := ⟨hid, parent?_eq_some_iff.1 hparent⟩
      obtain ⟨hstandard, rfl⟩ | ⟨hstandard, rest, hrest, rfl⟩ := h
      · exact ⟨List.isChain_pair.2 hleads, (ended_leads_iff rfl).2 (.inl hstandard)⟩
      · obtain ⟨hchain, hended⟩ := ih hstandard hrest
        exact ⟨List.isChain_cons_cons.2 ⟨hleads, hchain⟩, by simpa [Ended] using hended⟩

theorem walk_of_climb_error {e : LookupError} (hid : id.isStandard = false)
    (hnodup : (id :: seen).Nodup) (hseen : ∀ a ∈ seen, a ∈ g.ids)
    (hsteps : g.known < steps + seen.length) (h : g.climb steps (id :: seen) id = .error e) :
    ∃ l p, e = .cyclicHierarchy p ∧ (id :: (l ++ [p])).IsChain g.Leads ∧ l.Nodup ∧
      (∀ a ∈ l, a ∉ id :: seen) ∧ (p ∈ id :: seen ∨ p ∈ l) := by
  induction steps generalizing seen id with
  | zero =>
    have := length_le_known hnodup.of_cons hseen
    omega
  | succ steps ih =>
    rw [climb] at h
    split at h
    next => cases h
    next parent hparent =>
      have hleads : g.Leads id parent := ⟨hid, parent?_eq_some_iff.1 hparent⟩
      split at h
      next hmem =>
        cases h
        exact ⟨[], parent, rfl, List.isChain_pair.2 hleads, .nil, by simp, .inl hmem⟩
      next hmem =>
        split at h
        next => cases h
        next hstandard =>
          cases hclimb : g.climb steps (parent :: id :: seen) parent with
          | ok rest => simp [hclimb, Except.map] at h
          | error e' =>
            simp only [hclimb, Except.map, Except.error.injEq] at h
            subst h
            obtain ⟨l, p, he, hchain, hl, hfresh, hp⟩ := ih (by simpa using hstandard)
              (List.nodup_cons.2 ⟨hmem, hnodup⟩)
              (List.forall_mem_cons.2 ⟨hleads.mem_ids, hseen⟩)
              (by rw [List.length_cons]; omega) hclimb
            refine ⟨parent :: l, p, he, List.isChain_cons_cons.2 ⟨hleads, hchain⟩, ?_, ?_, ?_⟩
            · exact List.nodup_cons.2 ⟨fun hparent => hfresh parent hparent (by simp), hl⟩
            · exact List.forall_mem_cons.2 ⟨hmem, fun a ha =>
                fun hmem => hfresh a ha (List.mem_cons_of_mem parent hmem)⟩
            · simp only [List.mem_cons] at hp ⊢
              tauto

theorem ancestry_supertypes (g : Registry) (id : NodeId) : g.Ancestry id (g.supertypes id) := by
  cases hid : id.isStandard with
  | true => simpa [supertypes, hid] using .root hid
  | false =>
    cases hclimb : g.climb (g.known + 1) [id] id with
    | ok chain =>
      obtain ⟨hchain, hended⟩ := walk_of_climb hid hclimb
      cases chain with
      | nil =>
        have hunknown : ∀ p, ¬g.Derives id p := fun p hp => hended id rfl p ⟨hid, hp⟩
        simpa [supertypes, hid, hclimb] using .unknown hid hunknown
      | cons a chain =>
        have hbase := List.getLast?_eq_some_getLast (List.cons_ne_nil a chain)
        rw [(supertypes_eq_ok_iff hid).2 ⟨hclimb, List.cons_ne_nil a chain⟩]
        exact .ends hchain hbase ((ended_leads_iff hbase).1 hended)
    | error e =>
      obtain ⟨l, p, rfl, hchain, hl, hfresh, hp⟩ :=
        walk_of_climb_error hid (by simp) (by simp) (Nat.lt_succ_self _) hclimb
      have hl : (id :: l).Nodup :=
        List.nodup_cons.2 ⟨fun hmem => hfresh id hmem List.mem_cons_self, hl⟩
      simpa [supertypes, hid, hclimb] using .cyclic ⟨hchain, hl, by simpa using hp⟩

def outcome (id : NodeId) (chain : List NodeId) : Except LookupError (List NodeId) :=
  if chain = [] ∧ id.isStandard = false then .error (.unknownType id) else .ok chain

theorem Ancestry.walk (h : g.Ancestry id answer) :
    (∃ chain, (id :: chain).IsChain g.Leads ∧ Ended g.Leads (id :: chain) ∧
      answer = outcome id chain) ∨
      ∃ l p, ComesBack g.Leads id l p ∧ answer = .error (.cyclicHierarchy p) := by
  cases h with
  | root hid =>
    refine .inl ⟨[], List.isChain_singleton id, ?_, by simp [outcome, hid]⟩
    intro last hlast p hp
    obtain rfl : id = last := by simpa using hlast
    exact absurd hid (by simp [hp.1])
  | unknown hid hunknown =>
    refine .inl ⟨[], List.isChain_singleton id, ?_, by simp [outcome, hid]⟩
    rintro last ⟨⟩ p hp
    exact hunknown p hp.2
  | cyclic h => exact .inr ⟨_, _, h, rfl⟩
  | @ends chain base hchain hbase hend =>
    refine .inl ⟨chain, hchain, (ended_leads_iff hbase).2 hend, ?_⟩
    have hne : chain ≠ [] := by
      rintro rfl
      cases hbase
    simp [outcome, hne]

theorem Ancestry.unique (h : g.Ancestry id answer) (h' : g.Ancestry id answer') :
    answer = answer' := by
  have hR := rightUnique_leads g
  obtain ⟨chain, hchain, hended, rfl⟩ | ⟨l, p, hback, rfl⟩ := h.walk
  · obtain ⟨chain', hchain', hended', rfl⟩ | ⟨l', p', hback', rfl⟩ := h'.walk
    · rw [Ended.unique hR hchain hended hchain' hended']
    · exact absurd hended (hback'.not_ended hR hchain)
  · obtain ⟨chain', hchain', hended', rfl⟩ | ⟨l', p', hback', rfl⟩ := h'.walk
    · exact absurd hended' (hback.not_ended hR hchain')
    · rw [hback.unique hR hback']

theorem Ancestry.walk_of_ok (h : g.Ancestry id (.ok chain)) :
    (id :: chain).IsChain g.Leads ∧ Ended g.Leads (id :: chain) := by
  obtain ⟨chain', hchain, hended, heq⟩ | ⟨l, p, -, heq⟩ := h.walk
  · rw [outcome] at heq
    split at heq
    next => cases heq
    next =>
      cases heq
      exact ⟨hchain, hended⟩
  · cases heq

theorem Leads.exists_of_mem_dropLast (h : (id :: chain).IsChain g.Leads) {a : NodeId}
    (ha : a ∈ chain.dropLast) : ∃ p, g.Leads a p := by
  cases chain with
  | nil => simp at ha
  | cons b chain => exact exists_of_mem_dropLast_of_isChain h.tail a ha

/-- The supertypes of a type are what is met on the walk to parents, up to namespace 0 or a type
without a parent; the walk comes to an end or back within as many links as there are types. A chain
of supertypes has no repetition, and is taken as it is where repetitions are refused. -/
theorem supertypes_walk_parents (g : Registry) (id : NodeId) :
    (∀ l, (id :: l).IsChain g.Leads → (id :: l).Nodup → l.length ≤ g.known) ∧
      (∀ answer, g.supertypes id = answer ↔ g.Ancestry id answer) ∧
      ∀ chain, g.supertypes id = .ok chain →
        (id :: chain).Nodup ∧ (∀ a ∈ chain.dropLast, a.isStandard = false) ∧
          (supertypesOf id).eval g.resolver = .ok chain := by
  refine ⟨fun l hl hnodup => ?_, fun answer => ?_, fun chain hchain => ?_⟩
  · have hleads := exists_of_mem_dropLast_of_isChain hl
    have hlength := length_le_known (hnodup.sublist (List.dropLast_sublist _)) fun a ha =>
      (hleads a ha).choose_spec.mem_ids
    simpa using hlength
  · constructor
    · rintro rfl
      exact ancestry_supertypes g id
    · exact (ancestry_supertypes g id).unique
  · obtain ⟨hwalk, hended⟩ := (hchain ▸ ancestry_supertypes g id).walk_of_ok
    have hnodup := hended.nodup (rightUnique_leads g) hwalk
    refine ⟨hnodup, fun a ha => ?_, supertypesOf_eval_eq_ok_iff.2 ⟨hchain, hnodup⟩⟩
    obtain ⟨p, hp⟩ := Leads.exists_of_mem_dropLast hwalk ha
    exact hp.1

def circle : Registry :=
  [(1, 2), (2, 3), (3, 2)].foldl
    (fun g link => g.registerSubtype (.numeric 1 link.1) (.numeric 1 link.2)) .empty

theorem supertypes_walk_parents_circle :
    circle.supertypes (.numeric 1 1) = .error (.cyclicHierarchy (.numeric 1 2)) ∧
      circle.Ancestry (.numeric 1 1) (.error (.cyclicHierarchy (.numeric 1 2))) := by
  have hsupertypes : circle.supertypes (.numeric 1 1) =
      .error (.cyclicHierarchy (.numeric 1 2)) := by decide
  exact ⟨hsupertypes, ((supertypes_walk_parents circle (.numeric 1 1)).2.1 _).1 hsupertypes⟩

end Registry
end UaBridge
