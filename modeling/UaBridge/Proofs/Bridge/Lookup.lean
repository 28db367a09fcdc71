import Mathlib.Data.List.Permutation
import UaBridge.Proofs.Bridge.Binding
import UaBridge.Schema.Registry

/-!
Binding as looking names up in one flat schema: the fields of a type's definition and then those of
its ancestors' definitions. A binding says where it is in two ways, by its position in the flat
schema and by an index in one of the definitions.
-/

namespace UaBridge

variable {β : Type} {r : Resolver} {type : NodeId} {d : Definition} {defs more : List Definition}
  {fields : List (String × β)} {bound : List (Binding β)} {chain : List NodeId} {name : String}

def Schema.flat (defs : List Definition) : Schema := defs.flatMap (·.fields)

def Schema.Declares (s : Schema) (name : String) : Prop := ∃ field ∈ s, field.name = name

instance (s : Schema) (name : String) : Decidable (s.Declares name) :=
  inferInstanceAs (Decidable (∃ field ∈ s, field.name = name))

theorem Schema.isSome_slot?_iff {s : Schema} : (s.slot? name).isSome ↔ s.Declares name := by
  simp [slot?, List.find?_isSome, Declares]

theorem Schema.slot?_eq_none_iff {s : Schema} : s.slot? name = none ↔ ¬s.Declares name := by
  rw [← isSome_slot?_iff, Option.not_isSome_iff_eq_none]

theorem Schema.filled_iff {s : Schema} {names : List String} :
    s.Filled names ↔ ∀ p slot, s[p]? = some slot → slot.optional = false →
      s.place slot.name = p ∧ slot.name ∈ names := by
  constructor
  · intro h p slot hp hmandatory
    obtain ⟨name, hname, hplace⟩ := h p slot hp hmandatory
    rw [← hplace, getElem?_place] at hp
    rw [name_of_slot? hp]
    exact ⟨hplace, hname⟩
  · intro h p slot hp hmandatory
    obtain ⟨hplace, hname⟩ := h p slot hp hmandatory
    exact ⟨slot.name, hname, hplace⟩

/-- The binding is for a field of one of the definitions, and its position is behind all fields of
those before. -/
def Binding.LiesIn (b : Binding β) (defs : List Definition) : Prop :=
  ∃ before after, defs = before ++ b.definition :: after ∧
    b.position = (Schema.flat before).length + b.index ∧
    b.definition.fields[b.index]? = some b.field

namespace Binding
variable {b : Binding β}

theorem LiesIn.append (h : b.LiesIn defs) : b.LiesIn (defs ++ more) := by
  obtain ⟨before, after, rfl, hposition, hfield⟩ := h
  exact ⟨before, after ++ more, by simp, hposition, hfield⟩

theorem LiesIn.getElem?_position (h : b.LiesIn defs) :
    (Schema.flat defs)[b.position]? = some b.field := by
  obtain ⟨before, after, rfl, hposition, hfield⟩ := h
  have hindex := (List.getElem?_eq_some_iff.1 hfield).1
  simp only [Schema.flat, List.flatMap_append, List.flatMap_cons] at hposition ⊢
  rw [hposition, List.getElem?_append_right (Nat.le_add_right _ _), Nat.add_sub_cancel_left,
    List.getElem?_append_left hindex, hfield]

theorem liesIn_of_binding? {f : String × β}
    (h : Claims.binding? (Schema.flat defs).length d f = some b) : b.LiesIn (defs ++ [d]) := by
  simp only [Claims.binding?, Definition.slot?_eq, Option.map_map, Option.map_eq_some_iff] at h
  obtain ⟨field, hfield, rfl⟩ := h
  exact ⟨defs, [], rfl, rfl, (Schema.getElem?_place d.fields f.1).trans hfield⟩

end Binding

/-- One binding for each field, by its name and in schema order, where the schema is that of the
definitions. -/
structure BindsIn (defs : List Definition) (fields : List (String × β))
    (bound : List (Binding β)) : Prop where
  each : (bound.map fun b => (b.field.name, b.value)).Perm fields
  ordered : bound.Pairwise fun b c => b.position < c.position
  first : ∀ b ∈ bound, b.position = (Schema.flat defs).place b.field.name
  slot : ∀ b ∈ bound, (Schema.flat defs)[b.position]? = some b.field
  lies : ∀ b ∈ bound, b.LiesIn defs

namespace Claims
variable {c c' : Claims β} {shape : Shape}

structure Consulted (c : Claims β) (defs : List Definition) (fields : List (String × β)) :
    Prop where
  covers : c.Covers (Schema.flat defs) fields
  lies : ∀ b ∈ c.bound, b.LiesIn defs

theorem consulted_start (fields : List (String × β)) : (start fields).Consulted [] fields where
  covers := covers_start fields
  lies := by simp [start]

theorem Consulted.add (h : c.Consulted defs fields) (d : Definition) :
    (c.add d).Consulted (defs ++ [d]) fields where
  covers := by simpa [Schema.flat] using h.covers.add d
  lies := by
    intro b hb
    simp only [Claims.add, List.mem_append, List.mem_filterMap] at hb
    obtain hb | ⟨f, -, hf⟩ := hb
    · exact (h.lies b hb).append
    · rw [h.covers.width] at hf
      exact Binding.liesIn_of_binding? hf

theorem inherit_induction {P : List Definition → Claims β → Prop}
    (hadd : ∀ {defs c}, P defs c → ∀ d, P (defs ++ [d]) (c.add d)) (h : P defs c)
    (heval : (c.inherit type shape chain).eval r = .ok c') :
    ∃ asked rest more, (chain.filter fun a => !a.isStandard) = asked ++ rest ∧
      List.Forall₂ (fun a d => r.definition a = .ok d) asked more ∧
      P (defs ++ more) c' ∧ (shape = .record → rest = []) := by
  induction chain generalizing c defs with
  | nil =>
    cases heval
    exact ⟨[], [], [], rfl, .nil, by simpa using h, fun _ => rfl⟩
  | cons a chain ih =>
    by_cases hopen : c.pending.isEmpty ∧ shape = .union
    · simp only [inherit, if_pos hopen, Inquiry.eval_done, Except.ok.injEq] at heval
      subst heval
      refine ⟨[], _, [], rfl, .nil, by simpa using h, fun hshape => ?_⟩
      rw [hshape] at hopen
      cases hopen.2
    · cases ha : a.isStandard with
      | true =>
        rw [inherit_cons_of_isStandard hopen ha] at heval
        simpa [ha] using ih h heval
      | false =>
        obtain ⟨d, hd, heval⟩ := (inherit_cons_eval_eq_ok_iff hopen ha).1 heval
        obtain ⟨asked, rest, more, hchain, hmore, hlast, hrest⟩ := ih (hadd h d) heval
        refine ⟨a :: asked, rest, d :: more, by simp [ha, hchain], .cons hd hmore, ?_, hrest⟩
        simpa using hlast

theorem Consulted.inherit (h : c.Consulted defs fields)
    (heval : (c.inherit type shape chain).eval r = .ok c') :
    ∃ asked rest more, (chain.filter fun a => !a.isStandard) = asked ++ rest ∧
      List.Forall₂ (fun a d => r.definition a = .ok d) asked more ∧
      c'.Consulted (defs ++ more) fields ∧ (shape = .record → rest = []) :=
  inherit_induction (P := fun defs c => c.Consulted defs fields) (fun h d => h.add d) h heval

theorem Covers.place_of_mem {s : Schema} (h : c.Covers s fields) {b : Binding β}
    (hb : b ∈ c.bound) : s.Declares b.field.name ∧ b.position = s.place b.field.name := by
  obtain ⟨f, -, hf⟩ := (mem_map_seat_iff h).1 (List.mem_map_of_mem hb)
  obtain ⟨hslot, hseat⟩ := seat?_eq_some_iff.1 hf
  have hname : b.field.name = f.1 := Schema.name_of_slot? hslot
  rw [hname, ← Schema.isSome_slot?_iff]
  exact ⟨Option.isSome_of_eq_some hslot, congrArg (·.1) hseat⟩

theorem Covers.map_named_perm {s : Schema} (h : c.Covers s fields)
    (hslots : ∀ f ∈ fields, (s.slot? f.1).isSome) :
    (c.bound.map fun b => (b.field.name, b.value)).Perm fields := by
  have hnamed : fields.filterMap (fun f => (s.seat? f).map fun e => (e.2.1.name, e.2.2)) =
      fields := by
    conv_rhs => rw [← List.filterMap_some (l := fields)]
    apply List.filterMap_congr
    intro f hf
    obtain ⟨field, hfield⟩ := Option.isSome_iff_exists.1 (hslots f hf)
    simp [Schema.seat?, hfield, Schema.name_of_slot? hfield]
  have hbound := h.bound.map fun e => (e.2.1.name, e.2.2)
  rw [List.map_filterMap, hnamed, List.map_map] at hbound
  exact hbound

theorem Covers.pairwise_sorted {s : Schema} (h : c.Covers s fields)
    (hnames : (c.bound.map (·.field.name)).Nodup) :
    c.sorted.Pairwise fun b b' => b.position < b'.position := by
  have hperm : c.sorted.Perm c.bound := List.mergeSort_perm _ _
  have hne : c.sorted.Pairwise fun b b' => b.field.name ≠ b'.field.name :=
    List.pairwise_map.1 ((hperm.map _).symm.nodup hnames)
  refine ((pairwise_mergeSort_key Binding.position c.bound).and hne).imp_of_mem ?_
  rintro b b' hb hb' ⟨hle, hne⟩
  obtain ⟨hdeclares, hplace⟩ := h.place_of_mem (hperm.subset hb)
  refine Nat.lt_of_le_of_ne hle fun heq => hne ?_
  rw [hplace, (h.place_of_mem (hperm.subset hb')).2] at heq
  exact Schema.place_injective (Schema.isSome_slot?_iff.2 hdeclares) heq

theorem Consulted.bindsIn_sorted (h : c.Consulted defs fields) (hnodup : (fields.map (·.1)).Nodup)
    (hpending : c.pending = []) : BindsIn defs fields c.sorted := by
  have hperm : c.sorted.Perm c.bound := List.mergeSort_perm _ _
  have hnamed := h.covers.map_named_perm (h.covers.pending_eq_nil_iff.1 hpending)
  have hnames : (c.bound.map (·.field.name)).Nodup := by
    have := (hnamed.map (·.1)).symm.nodup hnodup
    rwa [List.map_map] at this
  exact
    { each := (hperm.map _).trans hnamed
      ordered := h.covers.pairwise_sorted hnames
      first := fun b hb => (h.covers.place_of_mem (hperm.subset hb)).2
      slot := fun b hb => (h.lies b (hperm.subset hb)).getElem?_position
      lies := fun b hb => h.lies b (hperm.subset hb) }

theorem Consulted.bindsIn (h : c.Consulted defs fields) (hnodup : (fields.map (·.1)).Nodup)
    (heval : (c.finish type shape).eval r = .ok bound) : BindsIn defs fields bound := by
  obtain ⟨hpending, -, rfl⟩ := finish_eval_eq_ok_iff.1 heval
  exact h.bindsIn_sorted hnodup hpending

end Claims

namespace Resolver

def HasAncestry (r : Resolver) (type : NodeId) (defs : List Definition) : Prop :=
  ∃ chain, r.HasChain type chain ∧
    List.Forall₂ (fun a d => r.definition a = .ok d) (chain.filter fun a => !a.isStandard) defs

/-- Some ancestor declares the name, and it and all nearer ones are defined. -/
def Bequeaths (r : Resolver) (type : NodeId) (name : String) : Prop :=
  ∃ chain, r.HasChain type chain ∧ ∃ before a after d,
    (chain.filter fun a => !a.isStandard) = before ++ a :: after ∧
      (∀ b ∈ before, r.Defines b) ∧ r.definition a = .ok d ∧ Schema.Declares d.fields name

theorem rightUnique_definition (r : Resolver) :
    Relator.RightUnique fun a d => r.definition a = .ok d :=
  fun _ _ _ hd hd' => Except.ok.inj (hd.symm.trans hd')

theorem inherits_iff :
    r.Inherits name chain ↔ ∃ before a after d,
      (chain.filter fun a => !a.isStandard) = before ++ a :: after ∧
        (∀ b ∈ before, r.Defines b) ∧ r.definition a = .ok d ∧ Schema.Declares d.fields name := by
  constructor
  · intro h
    induction h with
    | @here a chain d ha hd hslot =>
      exact ⟨[], a, _, d, by simp [ha]; rfl, by simp, hd, Schema.isSome_slot?_iff.1 hslot⟩
    | standard ha _ ih => simpa [ha] using ih
    | @further a chain d ha hd _ _ ih =>
      obtain ⟨before, b, after, d', hchain, hdefines, hd', hname⟩ := ih
      refine ⟨a :: before, b, after, d', by simp [ha, hchain], ?_, hd', hname⟩
      exact List.forall_mem_cons.2 ⟨⟨d, hd⟩, hdefines⟩
  · rintro ⟨before, a, after, d, hchain, hdefines, hd, hname⟩
    induction chain generalizing before with
    | nil => simp at hchain
    | cons b chain ih =>
      cases hb : b.isStandard with
      | true => exact .standard hb (ih before (by simpa [hb] using hchain) hdefines)
      | false =>
        simp only [hb, List.filter_cons, Bool.not_false, if_true] at hchain
        cases before with
        | nil =>
          cases hchain
          exact .here hb hd (Schema.isSome_slot?_iff.2 hname)
        | cons c before =>
          rw [List.cons_append, List.cons.injEq] at hchain
          rw [List.forall_mem_cons, ← hchain.1] at hdefines
          obtain ⟨⟨d', hd'⟩, hdefines⟩ := hdefines
          cases hslot : Schema.slot? d'.fields name with
          | some field => exact .here hb hd' (Option.isSome_of_eq_some hslot)
          | none => exact .further hb hd' hslot (ih before hchain.2 hdefines)

theorem HasAncestry.schema_eq (h : r.HasAncestry type defs) (hd : r.definition type = .ok d) :
    r.schema type = Schema.flat (d :: defs) := by
  obtain ⟨chain, hchain, hdefs⟩ := h
  rw [schema_of_hasChain hd hchain, flatMap_fieldsOf hdefs, ← List.flatMap_cons]
  rfl

end Resolver

section bindFields

theorem bindFields_eval_eq_ok_iff (hd : r.definition type = .ok d) :
    (∃ bound, (bindFields type d fields).eval r = .ok bound) ↔ r.Fits type d (fields.map (·.1)) :=
  ⟨fun ⟨_, h⟩ => (fits_of_bindFields hd h).1, exists_bindFields_of_fits hd⟩

theorem exists_bindFields_record_iff (hd : r.definition type = .ok d) (hshape : d.shape = .record)
    (hdefs : r.HasAncestry type defs) :
    (∃ bound, (bindFields type d fields).eval r = .ok bound) ↔
      (fields.map (·.1)).Nodup ∧ (∀ f ∈ fields, (Schema.flat (d :: defs)).Declares f.1) ∧
        ∀ p slot, (Schema.flat (d :: defs))[p]? = some slot → slot.optional = false →
          (Schema.flat (d :: defs)).place slot.name = p ∧ slot.name ∈ fields.map (·.1) := by
  rw [bindFields_eval_eq_ok_iff hd, ← Schema.filled_iff, ← hdefs.schema_eq hd]
  simp only [← Schema.isSome_slot?_iff]
  constructor
  · intro h
    cases h with
    | record _ hnodup _ _ hslots hfilled => exact ⟨hnodup, by simpa using hslots, hfilled⟩
    | empty hunion => simp [hshape] at hunion
    | declared hunion => simp [hshape] at hunion
    | inherited hunion => simp [hshape] at hunion
  · rintro ⟨hnodup, hslots, hfilled⟩
    obtain ⟨chain, hchain, hdefs⟩ := hdefs
    have hdefines := Except.exists_forall₂_iff.1 ⟨defs, hdefs⟩
    exact .record hshape hnodup hchain (fun a ha hstandard => hdefines a (by simp [ha, hstandard]))
      (by simpa using hslots) hfilled

theorem exists_bindFields_union_iff (hd : r.definition type = .ok d) (hshape : d.shape = .union) :
    (∃ bound, (bindFields type d fields).eval r = .ok bound) ↔
      fields.length ≤ 1 ∧
        ∀ f ∈ fields, Schema.Declares d.fields f.1 ∨ r.Bequeaths type f.1 := by
  rw [bindFields_eval_eq_ok_iff hd]
  constructor
  · intro h
    cases h with
    | record hrecord => simp [hshape] at hrecord
    | empty _ hnames => simp_all
    | declared _ hnames hslot =>
      obtain ⟨f, rfl, rfl⟩ := List.map_eq_singleton_iff.1 hnames
      simpa using .inl (Schema.isSome_slot?_iff.1 hslot)
    | inherited _ hnames _ hchain hinherits =>
      obtain ⟨f, rfl, rfl⟩ := List.map_eq_singleton_iff.1 hnames
      simpa using .inr ⟨_, hchain, Resolver.inherits_iff.1 hinherits⟩
  · rintro ⟨hlength, hnames⟩
    match fields with
    | [] => exact .empty hshape rfl
    | [f] =>
      cases hslot : Schema.slot? d.fields f.1 with
      | some field => exact .declared hshape rfl (Option.isSome_of_eq_some hslot)
      | none =>
        obtain hdeclares | ⟨chain, hchain, hinherits⟩ := hnames f List.mem_cons_self
        · exact absurd hdeclares (Schema.slot?_eq_none_iff.1 hslot)
        · exact .inherited hshape rfl hslot hchain (Resolver.inherits_iff.2 hinherits)
    | _ :: _ :: _ => simp at hlength

theorem bindsIn_of_inherit {shape : Shape} {c : Claims β} (hnodup : (fields.map (·.1)).Nodup)
    (hchain : r.HasChain type chain)
    (hc : (((Claims.start fields).add d).inherit type shape chain).eval r = .ok c)
    (hfinish : (c.finish type shape).eval r = .ok bound) :
    ∃ asked more, asked <+: r.ancestors type ∧
      List.Forall₂ (fun a d => r.definition a = .ok d) asked more ∧
      (shape = .record → asked = r.ancestors type) ∧ BindsIn (d :: more) fields bound := by
  obtain ⟨asked, rest, more, hasked, hmore, hconsulted, hrest⟩ :=
    ((Claims.consulted_start fields).add d).inherit hc
  rw [← Resolver.ancestors_of_supertypes hchain.1] at hasked
  refine ⟨asked, more, ⟨rest, hasked.symm⟩, hmore, fun hshape => ?_,
    hconsulted.bindsIn hnodup hfinish⟩
  rw [hasked, hrest hshape, List.append_nil]

theorem bindsIn_of_bindFields_union (hshape : d.shape = .union)
    (h : (bindFields type d fields).eval r = .ok bound) :
    ∃ asked more, asked <+: r.ancestors type ∧
      List.Forall₂ (fun a d => r.definition a = .ok d) asked more ∧
      BindsIn (d :: more) fields bound := by
  match fields with
  | [] =>
    rw [bindFields_union_nil hshape] at h
    cases h
    exact ⟨[], [], List.nil_prefix, .nil, ⟨.nil, .nil, by simp, by simp, by simp⟩⟩
  | [f] =>
    rw [bindFields_union_eval_eq_ok_iff hshape] at h
    split at h
    next =>
      exact ⟨[], [], List.nil_prefix, .nil,
        ((Claims.consulted_start [f]).add d).bindsIn (by simp) h⟩
    next =>
      obtain ⟨chain, hchain, c, hc, hfinish⟩ := h
      obtain ⟨asked, more, hasked, hmore, -, hbinds⟩ :=
        bindsIn_of_inherit (by simp) hchain hc hfinish
      exact ⟨asked, more, hasked, hmore, hbinds⟩
  | _ :: _ :: _ => simp [bindFields, Definition.isUnion, hshape] at h

theorem bindsIn_of_bindFields_record (hshape : d.shape = .record)
    (hdefs : r.HasAncestry type defs) (h : (bindFields type d fields).eval r = .ok bound) :
    BindsIn (d :: defs) fields bound := by
  obtain ⟨hnodup, chain, hchain, c, hc, hfinish⟩ := (bindFields_record_eval_eq_ok_iff hshape).1 h
  obtain ⟨asked, more, -, hmore, hall, hbinds⟩ := bindsIn_of_inherit hnodup hchain hc hfinish
  obtain ⟨chain', hchain', hdefs⟩ := hdefs
  rw [← Resolver.ancestors_of_supertypes hchain'.1, ← hall rfl] at hdefs
  rwa [← r.rightUnique_definition.forall₂ hmore hdefs]

/-- Binding looks names up in the flat schema. For a structure whose ancestors are all defined it
succeeds exactly if names are distinct and declared, and every mandatory field is the first of its
name and given; for a union if at most one name is given, and it is declared by the union or an
ancestor of which all nearer ones are defined. Then each field is bound once, to the first of its
name, in order. -/
theorem bindFields_looks_up (r : Resolver) (type : NodeId) (d : Definition)
    (hd : r.definition type = .ok d) (fields : List (String × β)) :
    (d.shape = .record → ∀ defs, r.HasAncestry type defs →
      ((∃ bound, (bindFields type d fields).eval r = .ok bound) ↔
        (fields.map (·.1)).Nodup ∧ (∀ f ∈ fields, (Schema.flat (d :: defs)).Declares f.1) ∧
          ∀ p slot, (Schema.flat (d :: defs))[p]? = some slot → slot.optional = false →
            (Schema.flat (d :: defs)).place slot.name = p ∧ slot.name ∈ fields.map (·.1)) ∧
      ∀ bound, (bindFields type d fields).eval r = .ok bound →
        BindsIn (d :: defs) fields bound) ∧
    (d.shape = .union →
      ((∃ bound, (bindFields type d fields).eval r = .ok bound) ↔
        fields.length ≤ 1 ∧
          ∀ f ∈ fields, Schema.Declares d.fields f.1 ∨ r.Bequeaths type f.1) ∧
      ∀ bound, (bindFields type d fields).eval r = .ok bound →
        ∃ asked more, asked <+: r.ancestors type ∧
          List.Forall₂ (fun a d => r.definition a = .ok d) asked more ∧
          BindsIn (d :: more) fields bound) := by
  constructor
  · intro hshape defs hdefs
    exact ⟨exists_bindFields_record_iff hd hshape hdefs,
      fun bound => bindsIn_of_bindFields_record hshape hdefs⟩
  · intro hshape
    exact ⟨exists_bindFields_union_iff hd hshape, fun bound => bindsIn_of_bindFields_union hshape⟩

end bindFields

namespace Pump

def device : Definition :=
  ⟨.numeric 1 1, "Device", .record,
    [⟨"name", Builtin.string.typeId, false, true⟩, ⟨"serial", Builtin.uint32.typeId, false, false⟩]⟩

def pump : Definition :=
  ⟨.numeric 1 2, "Pump", .record,
    [⟨"flow", Builtin.double.typeId, false, false⟩, ⟨"name", Builtin.string.typeId, false, true⟩]⟩

def signal : Definition :=
  ⟨.numeric 1 3, "Signal", .union, [⟨"fault", Builtin.uint16.typeId, false, false⟩]⟩

def alarm : Definition :=
  ⟨.numeric 1 4, "Alarm", .union, [⟨"limit", Builtin.double.typeId, false, false⟩]⟩

def registry : Registry :=
  ([device, pump, signal, alarm].foldl Registry.register .empty).registerSubtype pump.id device.id
    |>.registerSubtype alarm.id signal.id

def types : Resolver := registry.resolver

def given : List (String × Nat) := [("serial", 7), ("name", 1), ("flow", 3)]

def taken : List (Binding Nat) :=
  [⟨0, pump, 0, ⟨"flow", Builtin.double.typeId, false, false⟩, 3⟩,
    ⟨1, pump, 1, ⟨"name", Builtin.string.typeId, false, true⟩, 1⟩,
    ⟨3, device, 1, ⟨"serial", Builtin.uint32.typeId, false, false⟩, 7⟩]

end Pump

theorem bindFields_looks_up_pump :
    (Pump.types.definition Pump.pump.id = .ok Pump.pump ∧
      Pump.types.HasAncestry Pump.pump.id [Pump.device] ∧
      (bindFields Pump.pump.id Pump.pump Pump.given).eval Pump.types = .ok Pump.taken ∧
      BindsIn [Pump.pump, Pump.device] Pump.given Pump.taken) ∧
    Pump.types.definition Pump.alarm.id = .ok Pump.alarm ∧
      Pump.types.Bequeaths Pump.alarm.id "fault" ∧
      ∃ bound, (bindFields Pump.alarm.id Pump.alarm [("fault", 2)]).eval Pump.types = .ok bound := by
  have hpump : Pump.types.definition Pump.pump.id = .ok Pump.pump := by cbv
  have hancestry : Pump.types.HasAncestry Pump.pump.id [Pump.device] :=
    ⟨[Pump.device.id, .structureType], ⟨by cbv, by decide⟩, .cons (by cbv) .nil⟩
  have hbound : (bindFields Pump.pump.id Pump.pump Pump.given).eval Pump.types =
      .ok Pump.taken := by cbv
  have halarm : Pump.types.definition Pump.alarm.id = .ok Pump.alarm := by cbv
  have hbequeaths : Pump.types.Bequeaths Pump.alarm.id "fault" :=
    ⟨[Pump.signal.id, .unionType], ⟨by cbv, by decide⟩, [], Pump.signal.id, [], Pump.signal,
      by decide, by simp, by cbv, by decide⟩
  refine ⟨⟨hpump, hancestry, hbound, ?_⟩, halarm, hbequeaths, ?_⟩
  · exact ((bindFields_looks_up Pump.types _ _ hpump Pump.given).1 rfl _ hancestry).2 _ hbound
  · exact ((bindFields_looks_up Pump.types _ _ halarm [("fault", 2)]).2 rfl).1.2
      ⟨by decide, by simpa using .inr hbequeaths⟩

end UaBridge
