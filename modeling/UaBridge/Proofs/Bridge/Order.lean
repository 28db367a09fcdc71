import Mathlib.Data.List.Perm.Basic
import UaBridge.Proofs.Agreement
import UaBridge.Proofs.Bridge.Fields

namespace UaBridge

variable {β γ : Type} {r : Resolver} {type : NodeId} {d : Definition} {fields : List (String × β)}
  {fields' : List (String × γ)}

namespace Claims
variable {c : Claims β} {c' : Claims γ} {shape : Shape} {chain : List NodeId}

structure Alike (c : Claims β) (c' : Claims γ) : Prop where
  layers : c.layers = c'.layers
  width : c.width = c'.width
  pending : (c.pending.map (·.1)).Perm (c'.pending.map (·.1))
  bound : (c.bound.map (·.position)).Perm (c'.bound.map (·.position))

theorem alike_start (h : (fields.map (·.1)).Perm (fields'.map (·.1))) :
    (start fields).Alike (start fields') :=
  ⟨rfl, rfl, h, .nil⟩

theorem map_position_filterMap_binding? (offset : Nat) (d : Definition)
    (fields : List (String × β)) :
    (fields.filterMap (binding? offset d)).map (·.position) =
      (fields.map (·.1)).filterMap fun name => (d.slot? name).map fun slot => offset + slot.2 := by
  simp only [List.map_filterMap, List.filterMap_map, binding?, Option.map_map]
  rfl

theorem Alike.add (h : c.Alike c') (d : Definition) : (c.add d).Alike (c'.add d) where
  layers := by simp [Claims.add, h.layers, h.width]
  width := by simp [Claims.add, h.width]
  pending := by
    have hfilter {β : Type} (l : List (String × β)) :
        (l.filter fun f => !(d.slot? f.1).isSome).map (·.1) =
          (l.map (·.1)).filter fun name => !(d.slot? name).isSome := by
      rw [List.filter_map]
      rfl
    simp only [Claims.add, hfilter]
    exact h.pending.filter _
  bound := by
    simp only [Claims.add, List.map_append, map_position_filterMap_binding?, h.width]
    exact h.bound.append (h.pending.filterMap _)

theorem Alike.length_pending (h : c.Alike c') : c.pending.length = c'.pending.length := by
  simpa using h.pending.length_eq

theorem Alike.isEmpty_pending (h : c.Alike c') : c.pending.isEmpty = c'.pending.isEmpty := by
  rw [Bool.eq_iff_iff, List.isEmpty_iff_length_eq_zero, List.isEmpty_iff_length_eq_zero,
    h.length_pending]

theorem Alike.missing?_eq (h : c.Alike c') : c.missing? = c'.missing? := by
  have hany (i : Nat) : (c.bound.any (·.position == i)) = c'.bound.any (·.position == i) := by
    have hmap {β : Type} (l : List (Binding β)) :
        l.any (·.position == i) = (l.map (·.position)).any (· == i) := by
      rw [List.any_map]
      rfl
    rw [hmap, hmap, h.bound.any_eq]
  simp only [missing?, missingIn?, h.layers, hany]

theorem Alike.inherit (h : c.Alike c') :
    (c.inherit type shape chain).Agree r Alike (c'.inherit type shape chain) := by
  induction chain generalizing c c' with
  | nil => exact .done h
  | cons a chain ih =>
    simp only [Claims.inherit, h.isEmpty_pending, h.length_pending]
    split
    next => exact .done h
    next =>
      split
      next => exact ih h
      next =>
        refine .bind_left fun d _ => ?_
        split
        next => exact .bind_left fun _ _ => ih (h.add d)
        next => exact ih (h.add d)

theorem Alike.finish (h : c.Alike c') :
    (c.finish type shape).Agree r (fun _ _ => True) (c'.finish type shape) := by
  have hpending := h.isEmpty_pending
  unfold Claims.finish
  rw [h.missing?_eq]
  cases hc : c.pending with
  | cons f rest =>
    cases hc' : c'.pending with
    | nil => simp [hc, hc'] at hpending
    | cons f' rest' => exact .fail ⟨rfl, rfl⟩
  | nil =>
    cases hc' : c'.pending with
    | cons f' rest' => simp [hc, hc'] at hpending
    | nil =>
      cases shape with
      | union => exact .done trivial
      | record =>
        cases c'.missing? with
        | none => exact .done trivial
        | some missing => exact .fail (.refl _)

end Claims

theorem bindFields_agree_of_perm (h : (fields.map (·.1)).Perm (fields'.map (·.1))) :
    (bindFields type d fields).Agree r (fun _ _ => True) (bindFields type d fields') := by
  have hlength : fields.length = fields'.length := by simpa using h.length_eq
  unfold bindFields
  rw [hlength]
  split
  next => exact .fail (.refl _)
  next =>
    by_cases hnodup : (fields.map (·.1)).Nodup
    · rw [firstRepeat?_eq_none_iff.2 hnodup, firstRepeat?_eq_none_iff.2 (h.nodup hnodup)]
      have hown := (Claims.alike_start h).add d
      simp only [hown.isEmpty_pending]
      split
      next => exact hown.finish
      next => exact .bind_left fun chain _ => hown.inherit.bind fun _ _ _ _ hclaims =>
        hclaims.finish
    · -- Another name may be the one that is found twice.
      obtain ⟨name, hname⟩ := Option.ne_none_iff_exists'.1 (mt firstRepeat?_eq_none_iff.1 hnodup)
      obtain ⟨name', hname'⟩ := Option.ne_none_iff_exists'.1
        (mt firstRepeat?_eq_none_iff.1 (mt h.symm.nodup hnodup))
      rw [hname, hname']
      exact .fail ⟨rfl, rfl⟩

theorem Schema.arrange_eq_of_perm {s : Schema} {fields fields' : List (String × β)}
    (h : fields.Perm fields') (hnodup : (fields.map (·.1)).Nodup)
    (hslots : ∀ f ∈ fields, (s.slot? f.1).isSome) : s.arrange fields = s.arrange fields' := by
  refine List.Perm.eq_of_pairwise ?_ (s.pairwise_arrange fields) (s.pairwise_arrange fields')
    ((s.arrange_perm fields).trans (h.trans (s.arrange_perm fields').symm))
  intro f g hf hg hfg hgf
  have hf := mem_arrange.1 hf
  have hg := h.symm.subset (mem_arrange.1 hg)
  exact List.inj_on_of_nodup_map hnodup hf hg
    (place_injective (hslots f hf) (Nat.le_antisymm hfg hgf))

inductive Keyed {κ : Type} (R : β → γ → Prop) : κ × β → κ × γ → Prop
  | intro {key b c} : R b c → Keyed R (key, b) (key, c)

/-- The same named values in any order, where values correspond by `R`. -/
inductive Permuted (R : β → γ → Prop) : List (String × β) → List (String × γ) → Prop
  | intro {middle fields fields'} : List.Forall₂ (Keyed R) fields middle →
      middle.Perm fields' → Permuted R fields fields'

section permuted
variable {κ : Type} {R : β → γ → Prop}

theorem Keyed.key {f : κ × β} {g : κ × γ} (h : Keyed R f g) : f.1 = g.1 := by
  cases h
  rfl

theorem Keyed.value {f : κ × β} {g : κ × γ} (h : Keyed R f g) : R f.2 g.2 := by
  cases h
  assumption

theorem Keyed.map_fst_eq {l : List (κ × β)} {m : List (κ × γ)} (h : List.Forall₂ (Keyed R) l m) :
    l.map (·.1) = m.map (·.1) := by
  induction h with
  | nil => rfl
  | cons hfg _ ih => rw [List.map_cons, List.map_cons, hfg.key, ih]

theorem Permuted.map_fst_perm (h : Permuted R fields fields') :
    (fields.map (·.1)).Perm (fields'.map (·.1)) := by
  cases h with
  | intro hmiddle hperm =>
    rw [Keyed.map_fst_eq hmiddle]
    exact hperm.map _

theorem Permuted.forall₂_arrange {s : Schema} (h : Permuted R fields fields')
    (hnodup : (fields.map (·.1)).Nodup) (hslots : ∀ n ∈ fields.map (·.1), (s.slot? n).isSome) :
    List.Forall₂ (Keyed R) (s.arrange fields) (s.arrange fields') := by
  cases h with
  | intro hmiddle hperm =>
    -- The values are exchanged after arranging instead of before permuting.
    obtain ⟨arranged, harranged, hmiddle⟩ :=
      List.perm_comp_forall₂ (s.arrange_perm fields) hmiddle
    have hnames := Keyed.map_fst_eq harranged
    have hfields : (arranged.map (·.1)).Perm (fields.map (·.1)) :=
      hnames ▸ s.map_fst_arrange_perm fields
    have heq : s.arrange arranged = s.arrange fields' :=
      Schema.arrange_eq_of_perm (hmiddle.trans hperm) (hfields.symm.nodup hnodup) fun f hf =>
        hslots f.1 (hfields.subset (List.mem_map_of_mem hf))
    rw [← heq, Schema.arrange_of_map_fst_eq hnames]
    exact harranged

theorem Schema.forall₂_placed {s : Schema}
    (h : List.Forall₂ (Keyed R) (s.arrange fields) (s.arrange fields')) :
    List.Forall₂ (Keyed R) (s.placed fields) (s.placed fields') := by
  refine List.rel_filterMap (fun f g hfg => ?_) h
  cases hfg with
  | @intro name b c hbc =>
    cases s.slot? name with
    | none => exact .none
    | some field => exact .some (.intro hbc)

theorem bindFields_agree (hd : r.definition type = .ok d) (h : Permuted R fields fields') :
    (bindFields type d fields).Agree r
      (fun bound bound' =>
        List.Forall₂ (Keyed R) (bound.map Binding.taken) (bound'.map Binding.taken))
      (bindFields type d fields') := by
  refine Except.Agree.imp (bindFields_agree_of_perm h.map_fst_perm) ?_
  intro bound bound' hbound hbound' _
  obtain ⟨hfits, htaken⟩ := fits_of_bindFields hd hbound
  rw [htaken, (fits_of_bindFields hd hbound').2]
  exact Schema.forall₂_placed (h.forall₂_arrange hfits.nodup (hfits.isSome_slot? hd))

section convert
variable {α : Type} {depth : Nat} {isArray : β → Bool} {isArray' : γ → Bool}
  {convert : β → NodeId → Inquiry Failure α} {convert' : γ → NodeId → Inquiry Failure α}

theorem Binding.convert_agree {b : Binding β} {b' : Binding γ} (h : Keyed R b.taken b'.taken)
    (harray : ∀ b c, R b c → isArray b = isArray' c)
    (hconvert : ∀ b c type, R b c → (convert b type).Agree r Eq (convert' c type)) :
    (b.convert depth isArray convert).Agree r Eq (b'.convert depth isArray' convert') := by
  have hfield : b.field = b'.field := h.key
  have hvalue : R b.value b'.value := h.value
  have hreport {n n' : Note} : (Inquiry.report n).Agree r Eq (Inquiry.report n') := .ok rfl
  rw [Binding.convert, Binding.convert, hfield, harray _ _ hvalue]
  refine hreport.bind fun _ _ _ _ _ => .bind_right (.within (.bind_left fun _ _ => ?_)) _
  exact hconvert _ _ _ hvalue

theorem mapM_convert_agree {bound : List (Binding β)} {bound' : List (Binding γ)}
    (h : List.Forall₂ (Keyed R) (bound.map Binding.taken) (bound'.map Binding.taken))
    (harray : ∀ b c, R b c → isArray b = isArray' c)
    (hconvert : ∀ b c type, R b c → (convert b type).Agree r Eq (convert' c type)) :
    (bound.mapM (Binding.convert depth isArray convert)).Agree r Eq
      (bound'.mapM (Binding.convert depth isArray' convert')) := by
  rw [List.forall₂_map_left_iff, List.forall₂_map_right_iff] at h
  exact .mapM (h.imp fun _ _ hb => Binding.convert_agree hb harray hconvert)

end convert
end permuted
end UaBridge
