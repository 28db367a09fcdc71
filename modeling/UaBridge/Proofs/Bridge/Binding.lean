import Mathlib.Data.List.Nodup
import UaBridge.Proofs.Schema.Ancestry

namespace UaBridge

variable {α β : Type}

theorem find?_zipIdx_fst (p : α → Bool) (l : List α) (start : Nat) :
    (l.zipIdx start).find? (fun e => p e.1) = (l.find? p).map fun a => (a, start + l.findIdx p) := by
  induction l generalizing start with
  | nil => rfl
  | cons a l ih =>
    cases ha : p a with
    | true => simp [ha, List.findIdx_cons]
    | false =>
      simp only [List.zipIdx_cons, List.find?_cons, ha, ih, List.findIdx_cons, cond_false]
      congr 1
      funext b
      congr 1
      omega

theorem Definition.slot?_eq (d : Definition) (name : String) :
    d.slot? name =
      (Schema.slot? d.fields name).map fun field => (field, Schema.place d.fields name) := by
  simpa [slot?, Schema.slot?, Schema.place] using find?_zipIdx_fst (·.name == name) d.fields 0

namespace Schema

def seat? (s : Schema) (f : String × β) : Option (Nat × Field × β) :=
  (s.slot? f.1).map fun field => (s.place f.1, field, f.2)

def placed (s : Schema) (fields : List (String × β)) : List (Field × β) :=
  (s.arrange fields).filterMap fun f => (s.slot? f.1).map (·, f.2)

end Schema

def Binding.seat (b : Binding β) : Nat × Field × β := (b.position, b.field, b.value)

def Binding.taken (b : Binding β) : Field × β := (b.field, b.value)

namespace Claims
variable {s t : Schema} {c c' : Claims β} {fields : List (String × β)} {r : Resolver}
  {type : NodeId} {chain : List NodeId}

/-- What has been looked up is the schema `s`, and of `fields` what it declares is bound. -/
structure Covers (c : Claims β) (s : Schema) (fields : List (String × β)) : Prop where
  width : c.width = s.length
  layers : c.layers.flatMap (fun l => l.definition.fields.zipIdx l.offset) = s.zipIdx
  pending : c.pending = fields.filter fun f => (s.slot? f.1).isNone
  bound : (c.bound.map Binding.seat).Perm (fields.filterMap s.seat?)

theorem covers_start (fields : List (String × β)) : (start fields).Covers [] fields where
  width := rfl
  layers := rfl
  pending := by simp [start, Schema.slot?]
  bound := by simp [start, Schema.seat?, Schema.slot?]

theorem map_seat_binding? (offset : Nat) (d : Definition) (f : String × β) :
    (binding? offset d f).map Binding.seat =
      (Schema.slot? d.fields f.1).map fun field =>
        (offset + Schema.place d.fields f.1, field, f.2) := by
  simp [binding?, Definition.slot?_eq, Binding.seat, Function.comp_def]

theorem seat?_append_of_isSome {f : String × β} (h : (s.slot? f.1).isSome) :
    (s ++ t).seat? f = s.seat? f := by
  rw [Schema.seat?, Schema.slot?_append_of_isSome h, Schema.place_append_of_isSome h,
    Schema.seat?]

theorem Covers.add (h : c.Covers s fields) (d : Definition) :
    (c.add d).Covers (s ++ d.fields) fields where
  width := by simp [Claims.add, h.width]
  layers := by simp [Claims.add, h.layers, h.width, List.zipIdx_append]
  pending := by
    simp only [Claims.add, h.pending, List.filter_filter]
    apply List.filter_congr
    intro f _
    simp [Definition.slot?_eq, Schema.slot?_append, Bool.and_comm]
  bound := by
    have hown : (fields.filter fun f => (s.slot? f.1).isSome).filterMap (s ++ d.fields).seat? =
        fields.filterMap s.seat? := by
      rw [List.filterMap_filter]
      apply List.filterMap_congr
      intro f _
      cases hf : s.slot? f.1 with
      | none => simp [Schema.seat?, hf]
      | some field => simp [seat?_append_of_isSome (t := d.fields) (Option.isSome_of_eq_some hf)]
    have hrest : c.pending.filterMap (fun f => (binding? c.width d f).map Binding.seat) =
        (fields.filter fun f => !(s.slot? f.1).isSome).filterMap (s ++ d.fields).seat? := by
      simp only [Option.not_isSome, ← h.pending]
      apply List.filterMap_congr
      intro f hf
      rw [h.pending, List.mem_filter, Option.isNone_iff_eq_none] at hf
      rw [map_seat_binding?, Schema.seat?, Schema.slot?_append_of_eq_none hf.2,
        Schema.place_append_of_eq_none hf.2, h.width]
    simp only [Claims.add, List.map_append, List.map_filterMap, hrest]
    refine (h.bound.append_right _).trans ?_
    rw [← hown, ← List.filterMap_append]
    exact (List.filter_append_perm _ fields).filterMap _

def sorted (c : Claims β) : List (Binding β) :=
  c.bound.mergeSort fun a b => decide (a.position ≤ b.position)

theorem mem_map_seat_iff (h : c.Covers s fields) {e : Nat × Field × β} :
    e ∈ c.bound.map Binding.seat ↔ ∃ f ∈ fields, s.seat? f = some e := by
  rw [h.bound.mem_iff, List.mem_filterMap]

theorem Covers.exists_position_iff (h : c.Covers s fields) {i : Nat} (hi : i < s.length) :
    (∃ b ∈ c.bound, b.position = i) ↔ ∃ f ∈ fields, s.place f.1 = i := by
  constructor
  · rintro ⟨b, hb, rfl⟩
    obtain ⟨f, hf, he⟩ := (mem_map_seat_iff h).1 (List.mem_map_of_mem hb)
    obtain ⟨field, -, he⟩ := Option.map_eq_some_iff.1 he
    exact ⟨f, hf, congrArg (·.1) he⟩
  · rintro ⟨f, hf, rfl⟩
    obtain ⟨field, hfield⟩ := Option.isSome_iff_exists.1 (Schema.place_lt_iff.1 hi)
    have he : s.seat? f = some (s.place f.1, field, f.2) := by simp [Schema.seat?, hfield]
    obtain ⟨b, hb, hbe⟩ := List.mem_map.1 ((mem_map_seat_iff h).2 ⟨f, hf, he⟩)
    exact ⟨b, hb, congrArg (·.1) hbe⟩

theorem missingIn?_eq_none_iff {l : Layer} :
    c.missingIn? l = none ↔ ∀ p ∈ l.definition.fields.zipIdx l.offset,
      p.1.optional = false → ∃ b ∈ c.bound, b.position = p.2 := by
  rw [List.zipIdx_eq_map_add, List.forall_mem_map]
  simp [missingIn?]

theorem Covers.missing?_eq_none_iff (h : c.Covers s fields) :
    c.missing? = none ↔ s.Filled (fields.map (·.1)) := by
  have hlayers : c.missing? = none ↔ ∀ p ∈ s.zipIdx,
      p.1.optional = false → ∃ b ∈ c.bound, b.position = p.2 := by
    rw [← h.layers]
    simp only [missing?, List.findSome?_eq_none_iff, Option.map_eq_none_iff,
      missingIn?_eq_none_iff, List.forall_mem_flatMap]
  rw [hlayers]
  constructor
  · intro hall i field hi hmandatory
    have hlt := (List.getElem?_eq_some_iff.1 hi).1
    obtain ⟨f, hf, hplace⟩ := (h.exists_position_iff hlt).1
      (hall (field, i) (List.mem_zipIdx_iff_getElem?.2 hi) hmandatory)
    exact ⟨f.1, List.mem_map_of_mem hf, hplace⟩
  · rintro hfilled ⟨field, i⟩ hp hmandatory
    have hi := List.mem_zipIdx_iff_getElem?.1 hp
    obtain ⟨n, hn, hplace⟩ := hfilled i field hi hmandatory
    obtain ⟨f, hf, rfl⟩ := List.mem_map.1 hn
    exact (h.exists_position_iff (List.getElem?_eq_some_iff.1 hi).1).2 ⟨f, hf, hplace⟩

theorem seat?_eq_some_iff {f : String × β} {e : Nat × Field × β} :
    s.seat? f = some e ↔ s.slot? f.1 = some e.2.1 ∧ e = (s.place f.1, e.2.1, f.2) := by
  simp only [Schema.seat?, Option.map_eq_some_iff]
  constructor
  · rintro ⟨field, hfield, rfl⟩
    exact ⟨hfield, rfl⟩
  · rintro ⟨hfield, he⟩
    exact ⟨e.2.1, hfield, he.symm⟩

theorem Covers.map_seat_sorted (h : c.Covers s fields) (hnodup : (fields.map (·.1)).Nodup) :
    c.sorted.map Binding.seat = (s.arrange fields).filterMap s.seat? := by
  have hperm : (c.sorted.map Binding.seat).Perm (fields.filterMap s.seat?) :=
    ((List.mergeSort_perm _ _).map _).trans h.bound
  have hbound : (c.sorted.map Binding.seat).Pairwise fun a b => a.1 ≤ b.1 := by
    rw [List.pairwise_map]
    exact pairwise_mergeSort_key Binding.position c.bound
  have harranged : ((s.arrange fields).filterMap s.seat?).Pairwise fun a b => a.1 ≤ b.1 := by
    apply (s.pairwise_arrange fields).filterMap
    intro f g hfg a hfa b hgb
    rw [(seat?_eq_some_iff.1 hfa).2, (seat?_eq_some_iff.1 hgb).2]
    exact hfg
  refine List.Perm.eq_of_pairwise ?_ hbound harranged
    (hperm.trans ((s.arrange_perm fields).filterMap _).symm)
  intro a b ha hb hab hba
  obtain ⟨f, hf, hfa⟩ := List.mem_filterMap.1 (hperm.subset ha)
  obtain ⟨g, hg, hgb⟩ := List.mem_filterMap.1 hb
  rw [Schema.mem_arrange] at hg
  have hplace : s.place f.1 = s.place g.1 := by
    rw [(seat?_eq_some_iff.1 hfa).2, (seat?_eq_some_iff.1 hgb).2] at hab hba
    exact Nat.le_antisymm hab hba
  have hname := Schema.place_injective
    (Option.isSome_of_eq_some (seat?_eq_some_iff.1 hfa).1) hplace
  have hfg : f = g := List.inj_on_of_nodup_map hnodup hf hg hname
  rw [hfg, hgb] at hfa
  exact (Option.some.inj hfa).symm

theorem Covers.map_taken_sorted (h : c.Covers s fields) (hnodup : (fields.map (·.1)).Nodup) :
    c.sorted.map Binding.taken = s.placed fields := by
  calc
    c.sorted.map Binding.taken = (c.sorted.map Binding.seat).map (·.2) := by
      rw [List.map_map]; rfl
    _ = ((s.arrange fields).filterMap s.seat?).map (·.2) := by rw [h.map_seat_sorted hnodup]
    _ = s.placed fields := by
      rw [List.map_filterMap, Schema.placed]
      apply List.filterMap_congr
      intro f _
      rw [Schema.seat?, Option.map_map]
      rfl

theorem Covers.pending_eq_nil_iff (h : c.Covers s fields) :
    c.pending = [] ↔ ∀ f ∈ fields, (s.slot? f.1).isSome := by
  rw [h.pending, List.filter_eq_nil_iff]
  simp [Option.isSome_iff_ne_none]

theorem finish_eval_eq_ok_iff {shape : Shape} {bound : List (Binding β)} :
    (c.finish type shape).eval r = .ok bound ↔
      c.pending = [] ∧ (shape = .record → c.missing? = none) ∧ c.sorted = bound := by
  unfold finish
  cases c.pending <;> cases shape <;> cases c.missing? <;> simp [sorted]

theorem Covers.finish_eval_eq_ok_iff {shape : Shape} {bound : List (Binding β)}
    (h : c.Covers s fields) :
    (c.finish type shape).eval r = .ok bound ↔
      (∀ f ∈ fields, (s.slot? f.1).isSome) ∧
        (shape = .record → s.Filled (fields.map (·.1))) ∧ c.sorted = bound := by
  rw [Claims.finish_eval_eq_ok_iff, h.pending_eq_nil_iff, h.missing?_eq_none_iff]

theorem inherit_cons_of_isStandard {a : NodeId} {shape : Shape}
    (hopen : ¬(c.pending.isEmpty ∧ shape = .union)) (ha : a.isStandard) :
    c.inherit type shape (a :: chain) = c.inherit type shape chain := by
  simp only [inherit, if_neg hopen, ha, if_true]

theorem inherit_cons_eval_eq_ok_iff {a : NodeId} {shape : Shape}
    (hopen : ¬(c.pending.isEmpty ∧ shape = .union)) (ha : a.isStandard = false) :
    (c.inherit type shape (a :: chain)).eval r = .ok c' ↔
      ∃ d, r.definition a = .ok d ∧ ((c.add d).inherit type shape chain).eval r = .ok c' := by
  simp only [inherit, if_neg hopen, ha, Bool.false_eq_true, if_false, Inquiry.eval_bind,
    Except.bind_eq_ok_iff, definitionOf_eval_eq_ok_iff]
  cases c.pending.isEmpty <;> rfl

theorem Covers.of_inherit_record (h : c.Covers s fields)
    (heval : (c.inherit type .record chain).eval r = .ok c') :
    (∀ a ∈ chain, a.isStandard = false → r.Defines a) ∧
      c'.Covers (s ++ (chain.filter fun a => !a.isStandard).flatMap r.fieldsOf) fields := by
  induction chain generalizing c s with
  | nil =>
    cases heval
    simpa using h
  | cons a chain ih =>
    cases ha : a.isStandard with
    | true =>
      rw [inherit_cons_of_isStandard (by simp) ha] at heval
      simpa [ha] using ih h heval
    | false =>
      obtain ⟨d, hd, heval⟩ := (inherit_cons_eval_eq_ok_iff (by simp) ha).1 heval
      obtain ⟨hdefines, hcovers⟩ := ih (h.add d) heval
      constructor
      · simpa [ha] using ⟨⟨d, hd⟩, hdefines⟩
      · simpa [ha, Resolver.fieldsOf_of_definition hd] using hcovers

theorem exists_inherit_record (c : Claims β) (type : NodeId)
    (h : ∀ a ∈ chain, a.isStandard = false → r.Defines a) :
    ∃ c', (c.inherit type .record chain).eval r = .ok c' := by
  induction chain generalizing c with
  | nil => exact ⟨c, rfl⟩
  | cons a chain ih =>
    have hchain : ∀ a ∈ chain, a.isStandard = false → r.Defines a :=
      fun b hb => h b (List.mem_cons_of_mem a hb)
    cases ha : a.isStandard with
    | true =>
      rw [inherit_cons_of_isStandard (by simp) ha]
      exact ih c hchain
    | false =>
      obtain ⟨d, hd⟩ := h a List.mem_cons_self ha
      obtain ⟨c', hc'⟩ := ih (c.add d) hchain
      exact ⟨c', (inherit_cons_eval_eq_ok_iff (by simp) ha).2 ⟨d, hd, hc'⟩⟩

section union
variable {f : String × β}

theorem Covers.pending_eq_singleton_iff (h : c.Covers s [f]) :
    c.pending = [f] ↔ s.slot? f.1 = none := by
  rw [h.pending]
  cases hf : s.slot? f.1 <;> simp [hf]

theorem inherit_union_of_pending_eq_nil (h : c.pending = []) :
    c.inherit type .union chain = .done c := by
  cases chain <;> simp [inherit, h]

theorem Covers.of_inherit_union (h : c.Covers s [f]) (hf : s.slot? f.1 = none)
    (heval : (c.inherit type .union chain).eval r = .ok c') (hdone : c'.pending = []) :
    r.Inherits f.1 chain ∧ ∃ t rest, c'.Covers (s ++ t) [f] ∧
      (chain.filter fun a => !a.isStandard).flatMap r.fieldsOf = t ++ rest := by
  have hpending := h.pending_eq_singleton_iff.2 hf
  induction chain generalizing c s with
  | nil =>
    cases heval
    rw [hpending] at hdone
    cases hdone
  | cons a chain ih =>
    have hopen : ¬(c.pending.isEmpty ∧ Shape.union = .union) := by simp [hpending]
    cases ha : a.isStandard with
    | true =>
      rw [inherit_cons_of_isStandard hopen ha] at heval
      obtain ⟨hinherits, t, rest, hcovers, hrest⟩ := ih h hf heval hpending
      exact ⟨.standard ha hinherits, t, rest, hcovers, by simpa [ha] using hrest⟩
    | false =>
      obtain ⟨d, hd, heval⟩ := (inherit_cons_eval_eq_ok_iff hopen ha).1 heval
      have hadd := h.add d
      have hslot : Schema.slot? (s ++ d.fields) f.1 = Schema.slot? d.fields f.1 :=
        Schema.slot?_append_of_eq_none hf
      have hfields : ((a :: chain).filter fun a => !a.isStandard).flatMap r.fieldsOf =
          d.fields ++ (chain.filter fun a => !a.isStandard).flatMap r.fieldsOf := by
        simp [ha, Resolver.fieldsOf_of_definition hd]
      cases hdeclares : Schema.slot? d.fields f.1 with
      | some field =>
        -- Nothing is pending any more, so the remaining ancestors are not asked.
        have hnil : (c.add d).pending = [] := by
          rw [hadd.pending_eq_nil_iff]
          simp [hslot, hdeclares]
        rw [inherit_union_of_pending_eq_nil hnil] at heval
        cases heval
        exact ⟨.here ha hd (by simp [hdeclares]), d.fields, _, hadd, hfields⟩
      | none =>
        have hnone := hslot.trans hdeclares
        obtain ⟨hinherits, t, rest, hcovers, hrest⟩ :=
          ih hadd hnone heval (hadd.pending_eq_singleton_iff.2 hnone)
        refine ⟨.further ha hd hdeclares hinherits, d.fields ++ t, rest, ?_, ?_⟩
        · rwa [List.append_assoc] at hcovers
        · rw [hfields, hrest, List.append_assoc]

theorem Covers.exists_inherit_union (h : c.Covers s [f]) (type : NodeId)
    (hf : s.slot? f.1 = none) (hinherits : r.Inherits f.1 chain) :
    ∃ c', (c.inherit type .union chain).eval r = .ok c' ∧ c'.pending = [] := by
  have hpending := h.pending_eq_singleton_iff.2 hf
  have hopen : ¬(c.pending.isEmpty ∧ Shape.union = .union) := by simp [hpending]
  induction hinherits generalizing c s with
  | @here a chain d ha hd hdeclares =>
    have hnil : (c.add d).pending = [] := by
      rw [(h.add d).pending_eq_nil_iff]
      simpa [Schema.slot?_append_of_eq_none hf] using hdeclares
    refine ⟨c.add d, (inherit_cons_eval_eq_ok_iff hopen ha).2 ⟨d, hd, ?_⟩, hnil⟩
    rw [inherit_union_of_pending_eq_nil hnil, Inquiry.eval_done]
  | standard ha _ ih =>
    rw [inherit_cons_of_isStandard hopen ha]
    exact ih h hf hpending hopen
  | @further a chain d ha hd hdeclares _ ih =>
    have hnone := (Schema.slot?_append_of_eq_none hf).trans hdeclares
    have hpending := (h.add d).pending_eq_singleton_iff.2 hnone
    obtain ⟨c', hc', hdone⟩ := ih (h.add d) hnone hpending (by simp [hpending])
    exact ⟨c', (inherit_cons_eval_eq_ok_iff hopen ha).2 ⟨d, hd, hc'⟩, hdone⟩

end union

end Claims

section bindFields
variable {r : Resolver} {type : NodeId} {d : Definition} {fields : List (String × β)}
  {f : String × β} {bound : List (Binding β)} {s t : Schema}

theorem Claims.covers_own (d : Definition) (fields : List (String × β)) :
    ((Claims.start fields).add d).Covers d.fields fields :=
  (Claims.covers_start fields).add d

theorem Schema.placed_singleton (s : Schema) (f : String × β) :
    s.placed [f] = ((s.slot? f.1).map (·, f.2)).toList := by
  cases h : s.slot? f.1 <;> simp [placed, arrange, h]

theorem Schema.placed_append_singleton (h : (s.slot? f.1).isSome) :
    (s ++ t).placed [f] = s.placed [f] := by
  rw [placed_singleton, placed_singleton, slot?_append_of_isSome h]

theorem bindFields_record_eval_eq_ok_iff (hshape : d.shape = .record) :
    (bindFields type d fields).eval r = .ok bound ↔
      (fields.map (·.1)).Nodup ∧ ∃ chain, r.HasChain type chain ∧ ∃ c,
        (((Claims.start fields).add d).inherit type .record chain).eval r = .ok c ∧
        (c.finish type .record).eval r = .ok bound := by
  simp only [bindFields, Definition.isUnion, hshape, ← firstRepeat?_eq_none_iff]
  cases firstRepeat? (fields.map (·.1)) with
  | some name => simp
  | none => simp [Except.bind_eq_ok_iff, supertypesOf_eval_eq_ok_iff]

theorem bindFields_union_eval_eq_ok_iff (hshape : d.shape = .union) :
    (bindFields type d [f]).eval r = .ok bound ↔
      if (Schema.slot? d.fields f.1).isSome then
        (((Claims.start [f]).add d).finish type .union).eval r = .ok bound
      else ∃ chain, r.HasChain type chain ∧ ∃ c,
        (((Claims.start [f]).add d).inherit type .union chain).eval r = .ok c ∧
        (c.finish type .union).eval r = .ok bound := by
  have hrepeat : firstRepeat? [f.1] = none := by simp [firstRepeat?_eq_none_iff]
  have hown := (Claims.covers_own d [f]).pending_eq_nil_iff
  simp only [List.mem_singleton, forall_eq] at hown
  simp only [bindFields, Definition.isUnion, hshape, List.map_cons, List.map_nil, hrepeat,
    List.length_singleton, List.isEmpty_iff, hown]
  cases (Schema.slot? d.fields f.1).isSome with
  | true => simp
  | false => simp [Except.bind_eq_ok_iff, supertypesOf_eval_eq_ok_iff]

theorem Resolver.schema_of_hasChain {chain : List NodeId} (hd : r.definition type = .ok d)
    (hchain : r.HasChain type chain) :
    r.schema type = d.fields ++ (chain.filter fun a => !a.isStandard).flatMap r.fieldsOf := by
  rw [schema_of_definition hd, ancestors_of_supertypes hchain.1]

theorem fits_of_bindFields_record (hd : r.definition type = .ok d) (hshape : d.shape = .record)
    (h : (bindFields type d fields).eval r = .ok bound) :
    r.Fits type d (fields.map (·.1)) ∧
      bound.map Binding.taken = (r.schema type).placed fields := by
  obtain ⟨hnodup, chain, hchain, c, hc, hfinish⟩ := (bindFields_record_eval_eq_ok_iff hshape).1 h
  obtain ⟨hdefines, hcovers⟩ := (Claims.covers_own d fields).of_inherit_record hc
  rw [← Resolver.schema_of_hasChain hd hchain] at hcovers
  obtain ⟨hslots, hfilled, rfl⟩ := hcovers.finish_eval_eq_ok_iff.1 hfinish
  refine ⟨.record hshape hnodup hchain hdefines ?_ (hfilled rfl), hcovers.map_taken_sorted hnodup⟩
  simpa using hslots

theorem fits_of_bindFields_singleton (hd : r.definition type = .ok d) (hshape : d.shape = .union)
    (h : (bindFields type d [f]).eval r = .ok bound) :
    r.Fits type d [f.1] ∧ bound.map Binding.taken = (r.schema type).placed [f] := by
  rw [bindFields_union_eval_eq_ok_iff hshape] at h
  split at h
  next hslot =>
    obtain ⟨-, -, rfl⟩ := (Claims.covers_own d [f]).finish_eval_eq_ok_iff.1 h
    refine ⟨.declared hshape rfl hslot, ?_⟩
    rw [(Claims.covers_own d [f]).map_taken_sorted (by simp), Resolver.schema_of_definition hd,
      Schema.placed_append_singleton hslot]
  next hslot =>
    obtain ⟨chain, hchain, c, hc, hfinish⟩ := h
    obtain ⟨hdone, -, rfl⟩ := Claims.finish_eval_eq_ok_iff.1 hfinish
    rw [Bool.not_eq_true, Option.isSome_eq_false_iff, Option.isNone_iff_eq_none] at hslot
    obtain ⟨hinherits, t, rest, hcovers, hrest⟩ :=
      (Claims.covers_own d [f]).of_inherit_union hslot hc hdone
    refine ⟨.inherited hshape rfl hslot hchain hinherits, ?_⟩
    have hsome := hcovers.pending_eq_nil_iff.1 hdone f List.mem_cons_self
    rw [hcovers.map_taken_sorted (by simp), Resolver.schema_of_hasChain hd hchain, hrest,
      ← List.append_assoc, Schema.placed_append_singleton hsome]

theorem bindFields_union_nil (hshape : d.shape = .union) :
    (bindFields type d ([] : List (String × β))).eval r = .ok [] := by
  simp [bindFields, Definition.isUnion, hshape, firstRepeat?, firstRepeatAfter?, Claims.start,
    Claims.add, Claims.finish]

theorem fits_of_bindFields (hd : r.definition type = .ok d)
    (h : (bindFields type d fields).eval r = .ok bound) :
    r.Fits type d (fields.map (·.1)) ∧
      bound.map Binding.taken = (r.schema type).placed fields := by
  cases hshape : d.shape with
  | record => exact fits_of_bindFields_record hd hshape h
  | union =>
    match fields with
    | [] =>
      rw [bindFields_union_nil hshape] at h
      cases h
      exact ⟨.empty hshape rfl, by simp [Schema.placed, Schema.arrange]⟩
    | [f] => exact fits_of_bindFields_singleton hd hshape h
    | _ :: _ :: _ => simp [bindFields, Definition.isUnion, hshape] at h

theorem exists_bindFields_of_fits (hd : r.definition type = .ok d)
    (h : r.Fits type d (fields.map (·.1))) :
    ∃ bound, (bindFields type d fields).eval r = .ok bound := by
  cases h with
  | record hshape hnodup hchain hdefines hslots hfilled =>
    obtain ⟨c, hc⟩ := Claims.exists_inherit_record ((Claims.start fields).add d) type hdefines
    obtain ⟨-, hcovers⟩ := (Claims.covers_own d fields).of_inherit_record hc
    rw [← Resolver.schema_of_hasChain hd hchain] at hcovers
    have hslots : ∀ f ∈ fields, ((r.schema type).slot? f.1).isSome := by simpa using hslots
    refine ⟨c.sorted, (bindFields_record_eval_eq_ok_iff hshape).2 ⟨hnodup, _, hchain, c, hc, ?_⟩⟩
    exact hcovers.finish_eval_eq_ok_iff.2 ⟨hslots, fun _ => hfilled, rfl⟩
  | empty hshape hnames =>
    rw [List.map_eq_nil_iff] at hnames
    exact ⟨[], hnames ▸ bindFields_union_nil hshape⟩
  | declared hshape hnames hslot =>
    obtain ⟨f, rfl, rfl⟩ := List.map_eq_singleton_iff.1 hnames
    refine ⟨((Claims.start [f]).add d).sorted, (bindFields_union_eval_eq_ok_iff hshape).2 ?_⟩
    rw [if_pos hslot]
    exact (Claims.covers_own d [f]).finish_eval_eq_ok_iff.2
      ⟨by simpa using hslot, by simp, rfl⟩
  | inherited hshape hnames hnone hchain hinherits =>
    obtain ⟨f, rfl, rfl⟩ := List.map_eq_singleton_iff.1 hnames
    obtain ⟨c, hc, hdone⟩ :=
      (Claims.covers_own d [f]).exists_inherit_union type hnone hinherits
    refine ⟨c.sorted, (bindFields_union_eval_eq_ok_iff hshape).2 ?_⟩
    rw [if_neg (by simp [hnone])]
    exact ⟨_, hchain, c, hc, Claims.finish_eval_eq_ok_iff.2 ⟨hdone, by simp, rfl⟩⟩

end bindFields
end UaBridge
