import UaBridge.Bridge.Structured
import UaBridge.Proofs.Bridge.Binding
import UaBridge.Proofs.Bridge.Scalar

namespace UaBridge

variable {α β γ : Type} {r : Resolver} {type : NodeId} {d : Definition} {s : Schema}
  {fields : List (String × β)} {converted : List (String × γ)}

theorem Inquiry.eval_eachIndexed (f : α → Inquiry Failure β) (l : List α) :
    (eachIndexed f l).eval r = UaBridge.eachIndexed (fun a => (f a).eval r) l := by
  rw [eachIndexed, UaBridge.eachIndexed]
  simp only [eval_mapM, eval_within]

theorem forall₂_filterMap_left_iff {f : α → Option β} {P : β → γ → Prop} {l : List α} {u : List γ}
    (h : ∀ a ∈ l, (f a).isSome) :
    List.Forall₂ P (l.filterMap f) u ↔
      List.Forall₂ (fun a c => ∃ b, f a = some b ∧ P b c) l u := by
  induction l generalizing u with
  | nil => simp
  | cons a l ih =>
    rw [List.forall_mem_cons] at h
    obtain ⟨b, hb⟩ := Option.isSome_iff_exists.1 h.1
    simp [hb, List.forall₂_cons_left_iff, ih h.2]

/-- A named value and what becomes of it, as the field of its name demands. -/
def Schema.Carries (s : Schema) (isArray : β → Bool) (R : NodeId → β → γ → Prop) (f : String × β)
    (g : String × γ) : Prop :=
  ∃ field, s.slot? f.1 = some field ∧ isArray f.2 = field.isArray ∧ R field.type f.2 g.2 ∧ f.1 = g.1

theorem Schema.map_fst_of_carries {isArray : β → Bool} {R : NodeId → β → γ → Prop}
    (h : List.Forall₂ (s.Carries isArray R) fields converted) :
    fields.map (·.1) = converted.map (·.1) := by
  induction h with
  | nil => rfl
  | cons hf _ ih =>
    obtain ⟨_, _, _, _, hname⟩ := hf
    rw [List.map_cons, List.map_cons, ih, hname]

theorem Schema.arrange_eq_of_carries {s' : Schema} {isArray : β → Bool} {R : NodeId → β → γ → Prop}
    (h : List.Forall₂ (s'.Carries isArray R) (s.arrange fields) converted) :
    s.arrange converted = converted :=
  arrange_of_map_fst_eq (map_fst_of_carries h)

theorem Schema.map_fst_perm_of_carries {s' : Schema} {isArray : β → Bool}
    {R : NodeId → β → γ → Prop}
    (h : List.Forall₂ (s'.Carries isArray R) (s.arrange fields) converted) :
    (fields.map (·.1)).Perm (converted.map (·.1)) := by
  rw [← map_fst_of_carries h]
  exact (s.map_fst_arrange_perm fields).symm

theorem Schema.mem_placed_iff {p : Field × β} :
    p ∈ s.placed fields ↔ ∃ f ∈ fields, s.slot? f.1 = some p.1 ∧ f.2 = p.2 := by
  simp only [placed, List.mem_filterMap, mem_arrange, Option.map_eq_some_iff]
  constructor
  · rintro ⟨f, hf, field, hfield, rfl⟩
    exact ⟨f, hf, hfield, rfl⟩
  · rintro ⟨f, hf, hfield, hvalue⟩
    exact ⟨f, hf, p.1, hfield, by rw [hvalue]⟩

theorem exists_mem_of_mem_bindFields {bound : List (Binding β)} (hd : r.definition type = .ok d)
    (h : (bindFields type d fields).eval r = .ok bound) {b : Binding β} (hb : b ∈ bound) :
    ∃ f ∈ fields, f.2 = b.value := by
  have hmem : b.taken ∈ (r.schema type).placed fields :=
    (fits_of_bindFields hd h).2 ▸ List.mem_map_of_mem hb
  obtain ⟨f, hf, -, hvalue⟩ := Schema.mem_placed_iff.1 hmem
  exact ⟨f, hf, hvalue⟩

theorem Schema.forall₂_placed_iff {isArray : β → Bool} {R : NodeId → β → γ → Prop}
    (h : ∀ f ∈ fields, (s.slot? f.1).isSome) :
    List.Forall₂ (fun p g => isArray p.2 = p.1.isArray ∧ R p.1.type p.2 g.2 ∧ p.1.name = g.1)
        (s.placed fields) converted ↔
      List.Forall₂ (s.Carries isArray R) (s.arrange fields) converted := by
  have hcarries (f : String × β) (g : String × γ) :
      (∃ p : Field × β, (s.slot? f.1).map (·, f.2) = some p ∧
        isArray p.2 = p.1.isArray ∧ R p.1.type p.2 g.2 ∧ p.1.name = g.1) ↔
      s.Carries isArray R f g := by
    constructor
    · rintro ⟨p, hp, harray, hR, hname⟩
      obtain ⟨field, hfield, rfl⟩ := Option.map_eq_some_iff.1 hp
      exact ⟨field, hfield, harray, hR, (name_of_slot? hfield).symm.trans hname⟩
    · rintro ⟨field, hfield, harray, hR, hname⟩
      exact ⟨(field, f.2), by simp [hfield], harray, hR, (name_of_slot? hfield).trans hname⟩
  have hsome : ∀ f ∈ s.arrange fields, ((s.slot? f.1).map (·, f.2)).isSome := fun f hf => by
    simpa using h f (mem_arrange.1 hf)
  rw [placed, forall₂_filterMap_left_iff hsome]
  simp only [hcarries]

namespace Resolver
variable {names names' : List String} {name : String} {chain : List NodeId}

theorem Inherits.isSome_slot? (h : r.Inherits name chain) :
    (Schema.slot? ((chain.filter fun a => !a.isStandard).flatMap r.fieldsOf) name).isSome := by
  induction h with
  | here ha hd hslot =>
    simp [ha, fieldsOf_of_definition hd, Schema.slot?_append, hslot]
  | standard ha _ ih => simpa [ha] using ih
  | further ha hd _ _ ih =>
    simp [ha, fieldsOf_of_definition hd, Schema.slot?_append, ih]

theorem Fits.nodup (h : r.Fits type d names) : names.Nodup := by
  cases h with
  | record _ hnodup => exact hnodup
  | empty _ hnames => simp [hnames]
  | declared _ hnames => simp [hnames]
  | inherited _ hnames => simp [hnames]

theorem Fits.isSome_slot? (h : r.Fits type d names) (hd : r.definition type = .ok d) :
    ∀ n ∈ names, ((r.schema type).slot? n).isSome := by
  cases h with
  | record _ _ _ _ hslots => exact hslots
  | empty _ hnames => simp [hnames]
  | declared _ hnames hslot => simp [hnames, schema_of_definition hd, Schema.slot?_append, hslot]
  | inherited _ hnames _ hchain hinherits =>
    simp [hnames, schema_of_hasChain hd hchain, Schema.slot?_append, hinherits.isSome_slot?]

theorem Fits.perm (h : r.Fits type d names) (hperm : names.Perm names') :
    r.Fits type d names' := by
  cases h with
  | record hshape hnodup hchain hdefines hslots hfilled =>
    exact .record hshape (hperm.nodup hnodup) hchain hdefines
      (fun n hn => hslots n (hperm.symm.subset hn)) (hfilled.perm hperm)
  | empty hshape hnames =>
    exact .empty hshape (List.nil_perm.1 (hnames ▸ hperm))
  | declared hshape hnames hslot =>
    exact .declared hshape (List.singleton_perm.1 (hnames ▸ hperm)).symm hslot
  | inherited hshape hnames hslot hchain hinherits =>
    exact .inherited hshape (List.singleton_perm.1 (hnames ▸ hperm)).symm hslot hchain hinherits

end Resolver

section convert
variable {depth : Nat} {isArray : β → Bool} {convert : β → NodeId → Inquiry Failure γ}

theorem checkArray_eq_ok_iff {array : Bool} {field : Field} {u : Unit} :
    checkArray array field = .ok u ↔ array = field.isArray := by
  unfold checkArray
  split <;> simp [*]

theorem Binding.convert_eval_eq_ok_iff {b : Binding β} {g : String × γ} :
    (b.convert depth isArray convert).eval r = .ok g ↔
      isArray b.value = b.field.isArray ∧ (convert b.value b.field.type).eval r = .ok g.2 ∧
        b.field.name = g.1 := by
  simp only [Binding.convert, Inquiry.eval_bind, Inquiry.eval_report, Inquiry.eval_within,
    Inquiry.eval_ofExcept, Inquiry.eval_pure, Except.bind_eq_ok_iff, Except.mapError_eq_ok_iff,
    checkArray_eq_ok_iff, Except.ok.injEq]
  constructor
  · rintro ⟨-, -, c, ⟨-, harray, hc⟩, rfl⟩
    exact ⟨harray, hc, rfl⟩
  · rintro ⟨harray, hc, hname⟩
    exact ⟨(), trivial, g.2, ⟨(), harray, hc⟩, Prod.ext hname rfl⟩

theorem mapM_convert_eval_eq_ok_iff {bound : List (Binding β)} :
    (bound.mapM (Binding.convert depth isArray convert)).eval r = .ok converted ↔
      List.Forall₂ (fun p g => isArray p.2 = p.1.isArray ∧
        (convert p.2 p.1.type).eval r = .ok g.2 ∧ p.1.name = g.1)
        (bound.map Binding.taken) converted := by
  rw [Inquiry.eval_mapM, Except.mapM_eq_ok_iff, List.forall₂_map_left_iff]
  simp only [Binding.convert_eval_eq_ok_iff, Binding.taken]

theorem convertFields_eval_eq_ok_iff (hd : r.definition type = .ok d) :
    (∃ bound, (bindFields type d fields).eval r = .ok bound ∧
      (bound.mapM (Binding.convert depth isArray convert)).eval r = .ok converted) ↔
    r.Fits type d (fields.map (·.1)) ∧
      List.Forall₂
        ((r.schema type).Carries isArray fun type b c => (convert b type).eval r = .ok c)
        ((r.schema type).arrange fields) converted := by
  have hcarries (hfits : r.Fits type d (fields.map (·.1))) {bound : List (Binding β)}
      (hbound : bound.map Binding.taken = (r.schema type).placed fields) :
      (bound.mapM (Binding.convert depth isArray convert)).eval r = .ok converted ↔
        List.Forall₂
          ((r.schema type).Carries isArray fun type b c => (convert b type).eval r = .ok c)
          ((r.schema type).arrange fields) converted := by
    rw [mapM_convert_eval_eq_ok_iff, hbound, ← Schema.forall₂_placed_iff]
    exact fun f hf => hfits.isSome_slot? hd f.1 (List.mem_map_of_mem hf)
  constructor
  · rintro ⟨bound, hbind, hconvert⟩
    obtain ⟨hfits, hbound⟩ := fits_of_bindFields hd hbind
    exact ⟨hfits, (hcarries hfits hbound).1 hconvert⟩
  · rintro ⟨hfits, hconverted⟩
    obtain ⟨bound, hbind⟩ := exists_bindFields_of_fits hd hfits
    exact ⟨bound, hbind, (hcarries hfits (fits_of_bindFields hd hbind).2).2 hconverted⟩

end convert
end UaBridge
