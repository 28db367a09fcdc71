import UaBridge.Assoc

namespace UaBridge.Assoc

variable {κ ν : Type} [DecidableEq κ] {m : Assoc κ ν} {k k' : κ} {v : ν}

theorem entries_insert :
    (m.insert k v).entries = (k, v) :: m.entries.filter fun e => ¬e.1 = k := rfl

theorem entries_merge {n : Assoc κ ν} :
    (m.merge n).entries = n.entries ++ m.entries.filter fun e => ¬n.contains e.1 := rfl

@[simp] theorem find?_insert_self : (m.insert k v).find? k = some v := by
  simp [find?, insert]

theorem find?_insert_of_ne (h : k' ≠ k) : (m.insert k v).find? k' = m.find? k' := by
  rw [find?, entries_insert, List.find?_cons_of_neg (by simpa using Ne.symm h), List.find?_filter,
    find?]
  congr 2
  funext e
  by_cases he : e.1 = k'
  · simp [he, h]
  · simp [he]

theorem contains_insert_iff :
    (m.insert k v).contains k' = true ↔ k' = k ∨ m.contains k' = true := by
  by_cases h : k' = k
  · simp [contains, h]
  · simp [contains, find?_insert_of_ne h, h]

theorem contains_eq_false_iff : m.contains k = false ↔ m.find? k = none := by
  rw [contains, Option.isSome_eq_false_iff, Option.isNone_iff_eq_none]

theorem contains_iff_mem_keys : m.contains k = true ↔ k ∈ m.keys := by
  rw [contains, find?, Option.isSome_map, List.find?_isSome, keys, List.mem_map]
  simp only [decide_eq_true_eq]

theorem mem_keys_of_find? (h : m.find? k = some v) : k ∈ m.keys := by
  rw [← contains_iff_mem_keys, contains, h]
  rfl

theorem mem_values_of_find? (h : m.find? k = some v) : v ∈ m.entries.map (·.2) := by
  obtain ⟨e, he, rfl⟩ := Option.map_eq_some_iff.1 h
  exact List.mem_map_of_mem (List.mem_of_find?_eq_some he)

theorem find?_merge (m n : Assoc κ ν) (k : κ) :
    (m.merge n).find? k = (n.find? k).or (m.find? k) := by
  rw [find?, entries_merge, List.find?_append, Option.map_or, List.find?_filter, find?, find?]
  cases hn : n.entries.find? (·.1 = k) with
  | some e => rfl
  | none =>
    have hnone : n.contains k = false := contains_eq_false_iff.2 (by simp [find?, hn])
    simp only [Option.map_none, Option.none_or]
    congr 2
    funext e
    by_cases he : e.1 = k
    · simp [he, hnone]
    · simp [he]

theorem size_merge {m n : Assoc κ ν} (h : ∀ k, n.contains k = true → m.contains k = false) :
    (m.merge n).size = n.size + m.size := by
  have hall : m.entries.filter (fun e => ¬n.contains e.1) = m.entries := by
    rw [List.filter_eq_self]
    intro e he
    cases hn : n.contains e.1 with
    | false => rfl
    | true => rw [← contains_of_mem_entries he, h e.1 hn]; rfl
  rw [size, entries_merge, hall, List.length_append, size, size]

@[simp] theorem merge_empty (m : Assoc κ ν) : m.merge empty = m :=
  Assoc.ext (List.filter_eq_self.2 fun _ _ => rfl)

@[simp] theorem empty_merge (m : Assoc κ ν) : empty.merge m = m :=
  Assoc.ext (List.append_nil _)

theorem merge_insert (m n : Assoc κ ν) (k : κ) (v : ν) :
    m.merge (n.insert k v) = (m.merge n).insert k v := by
  ext1
  have hrest : m.entries.filter (fun e => ¬(n.insert k v).contains e.1) =
      (m.entries.filter fun e => ¬n.contains e.1).filter fun e => ¬e.1 = k := by
    rw [List.filter_filter]
    congr 1
    funext e
    rw [← Bool.decide_and, decide_eq_decide, contains_insert_iff, not_or]
  rw [entries_merge, hrest, entries_insert, entries_insert, entries_merge, List.filter_append,
    List.cons_append]

theorem merge_assoc (m n p : Assoc κ ν) : (m.merge n).merge p = m.merge (n.merge p) := by
  ext1
  have hrest : m.entries.filter (fun e => ¬(n.merge p).contains e.1) =
      (m.entries.filter fun e => ¬n.contains e.1).filter fun e => ¬p.contains e.1 := by
    rw [List.filter_filter]
    congr 1
    funext e
    rw [← Bool.decide_and, decide_eq_decide, contains, find?_merge, Option.isSome_or,
      ← contains, ← contains, Bool.or_eq_true, not_or]
  rw [entries_merge, entries_merge, entries_merge, hrest, entries_merge, List.filter_append,
    List.append_assoc]

/-- The same entries, in whatever order they have been written. -/
structure Same (m n : Assoc κ ν) : Prop where
  perm : m.entries.Perm n.entries
  find?_eq : ∀ k, m.find? k = n.find? k

theorem find?_eq_some_iff_mem : m.find? k = some v ↔ (k, v) ∈ m.entries := by
  obtain ⟨l, h⟩ := m
  rw [find?]
  dsimp only
  induction l with
  | nil => simp
  | cons e l ih =>
    rw [List.pairwise_cons] at h
    by_cases he : e.1 = k
    · have hother : (k, v) ∉ l := fun hmem => h.1 (k, v) hmem he
      rw [List.find?_cons_of_pos (by simpa using he), Option.map_some, Option.some.injEq,
        List.mem_cons, or_iff_left hother]
      exact ⟨fun hv => Prod.ext he.symm hv.symm, fun heq => congrArg Prod.snd heq.symm⟩
    · have hne : (k, v) ≠ e := fun heq => he (congrArg Prod.fst heq.symm)
      rw [List.find?_cons_of_neg (by simpa using he), ih h.2, List.mem_cons, or_iff_right hne]

theorem Same.of_perm {n : Assoc κ ν} (h : m.entries.Perm n.entries) : m.Same n where
  perm := h
  find?_eq k := by
    ext v
    rw [find?_eq_some_iff_mem, find?_eq_some_iff_mem, h.mem_iff]

theorem Same.merge {m' n n' : Assoc κ ν} (hm : m.Same m') (hn : n.Same n') :
    (m.merge n).Same (m'.merge n') where
  perm := by
    have hcontains : n.contains = n'.contains := funext fun k => by
      rw [contains, contains, hn.find?_eq]
    rw [entries_merge, entries_merge, hcontains]
    exact hn.perm.append (hm.perm.filter _)
  find?_eq k := by rw [find?_merge, find?_merge, hm.find?_eq, hn.find?_eq]

theorem find?_foldl_insert (l : List (κ × ν)) (m : Assoc κ ν) (k : κ) :
    (l.foldl (fun m e => m.insert e.1 e.2) m).find? k =
      ((l.reverse.find? (·.1 = k)).map (·.2)).or (m.find? k) := by
  induction l generalizing m with
  | nil => rfl
  | cons e l ih =>
    rw [List.foldl_cons, ih, List.reverse_cons, List.find?_append, Option.map_or, Option.or_assoc]
    congr 1
    by_cases h : k = e.1
    · simp [h]
    · simp [find?_insert_of_ne h, Ne.symm h]

theorem find?_ofList (l : List (κ × ν)) (k : κ) :
    (ofList l).find? k = (l.reverse.find? (·.1 = k)).map (·.2) :=
  (find?_foldl_insert l empty k).trans Option.or_none

theorem entries_foldl_insert {l : List (κ × ν)} (hl : l.Pairwise (·.1 ≠ ·.1))
    (hm : ∀ e ∈ l, ∀ e' ∈ m.entries, e.1 ≠ e'.1) :
    (l.foldl (fun m e => m.insert e.1 e.2) m).entries = l.reverse ++ m.entries := by
  induction l generalizing m with
  | nil => rfl
  | cons e l ih =>
    rw [List.pairwise_cons] at hl
    rw [List.forall_mem_cons] at hm
    have hinsert : (m.insert e.1 e.2).entries = e :: m.entries := by
      rw [entries_insert, List.filter_eq_self.2 fun e' he' => by simpa using (hm.1 e' he').symm]
    rw [List.foldl_cons, ih hl.2, hinsert, List.reverse_cons, List.append_assoc,
      List.singleton_append]
    intro e' he'
    rw [hinsert, List.forall_mem_cons]
    exact ⟨(hl.1 e' he').symm, hm.2 e' he'⟩

theorem ofList_same {l l' : List (κ × ν)} (h : l.Perm l') (hl : l.Pairwise (·.1 ≠ ·.1)) :
    (ofList l).Same (ofList l') := by
  have hentries {l : List (κ × ν)} (hl : l.Pairwise (·.1 ≠ ·.1)) :
      (ofList l).entries = l.reverse :=
    (entries_foldl_insert hl fun _ _ _ he' => absurd he' List.not_mem_nil).trans (List.append_nil _)
  refine .of_perm ?_
  rw [hentries hl, hentries ((h.pairwise_iff Ne.symm).1 hl)]
  exact (List.reverse_perm l).trans (h.trans (List.reverse_perm l').symm)

def Remembers {ε : Type} (m : Assoc κ ν) (f : κ → Except ε ν) : Prop :=
  ∀ k v, m.find? k = some v → f k = .ok v

variable {ε : Type} {f : κ → Except ε ν}

theorem remembers_empty : (empty : Assoc κ ν).Remembers f := by
  intro k v h
  cases h

theorem Remembers.insert (h : m.Remembers f) (hk : f k = .ok v) : (m.insert k v).Remembers f := by
  intro k' v' hfound
  by_cases heq : k' = k
  · rw [heq, find?_insert_self] at hfound
    rw [heq, hk, Option.some.inj hfound]
  · rw [find?_insert_of_ne heq] at hfound
    exact h k' v' hfound

end UaBridge.Assoc
