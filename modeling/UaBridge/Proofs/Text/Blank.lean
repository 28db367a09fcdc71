import Mathlib.Data.List.DropRight
import UaBridge.Text.Blank

namespace UaBridge.Text

variable {s l r : List Char} {c sep : Char}

theorem isBlank_eq_false_of_isDigit (h : c.isDigit = true) : isBlank c = false := by
  have hlow : 48 ≤ c.toNat ∧ c.toNat ≤ 57 := by
    simpa [Char.isDigit, UInt32.le_iff_toNat_le] using h
  simp only [isBlank, Bool.or_eq_false_iff, Bool.and_eq_false_iff, decide_eq_false_iff_not,
    beq_eq_false_iff_ne]
  omega

theorem trim_eq_self (hfirst : ∀ c ∈ s.head?, isBlank c = false)
    (hlast : ∀ c ∈ s.getLast?, isBlank c = false) : trim s = s := by
  have hstart : trimStart s = s := by
    cases s with
    | nil => rfl
    | cons c s => exact List.dropWhile_cons_of_neg (by simp [hfirst c rfl])
  have hend : trimEnd s = s := by
    refine List.rdropWhile_eq_self_iff.2 fun hs => ?_
    simp [hlast _ (List.getLast?_eq_some_getLast hs)]
  rw [trim, hstart, hend]

theorem isBlank_of_mem_getLast?_trim : ∀ c ∈ (trim s).getLast?, isBlank c = false := by
  intro c hc
  obtain ⟨hne, rfl⟩ := List.mem_getLast?_eq_getLast hc
  exact eq_false_of_ne_true (List.rdropWhile_last_not isBlank (trimStart s) hne)

theorem isBlank_of_mem_head?_trim : ∀ c ∈ (trim s).head?, isBlank c = false := by
  intro c hc
  obtain ⟨rest, hrest⟩ : trim s <+: trimStart s := List.rdropWhile_prefix isBlank (trimStart s)
  have hstart : (trimStart s).head? = some c := by
    rw [← hrest, List.head?_append, hc, Option.some_or]
  have hfirst := List.head?_dropWhile_not isBlank s
  rw [← trimStart, hstart] at hfirst
  simpa using hfirst

@[simp] theorem trim_trim : trim (trim s) = trim s :=
  trim_eq_self isBlank_of_mem_head?_trim isBlank_of_mem_getLast?_trim

@[simp] theorem trimmed_trimmed (s : String) : trimmed (trimmed s) = trimmed s := by
  rw [trimmed, trimmed, String.toList_ofList, trim_trim]

theorem cut?_append (h : sep ∉ l) : cut? sep (l ++ sep :: r) = some (l, r) := by
  induction l with
  | nil => exact if_pos rfl
  | cons c l ih =>
    rw [List.mem_cons, not_or] at h
    rw [List.cons_append, cut?, if_neg (Ne.symm h.1), ih h.2]
    rfl

theorem cut?_eq_some_iff : cut? sep s = some (l, r) ↔ sep ∉ l ∧ s = l ++ sep :: r := by
  refine ⟨fun h => ?_, fun ⟨hsep, hs⟩ => hs ▸ cut?_append hsep⟩
  induction s generalizing l with
  | nil => cases h
  | cons c s ih =>
    rw [cut?] at h
    split at h
    next hc =>
      cases h
      exact ⟨List.not_mem_nil, hc ▸ rfl⟩
    next hc =>
      obtain ⟨⟨l', r'⟩, hcut, heq⟩ := Option.map_eq_some_iff.1 h
      cases heq
      obtain ⟨hsep, rfl⟩ := ih hcut
      exact ⟨List.not_mem_cons_of_ne_of_not_mem (Ne.symm hc) hsep, rfl⟩

end UaBridge.Text
