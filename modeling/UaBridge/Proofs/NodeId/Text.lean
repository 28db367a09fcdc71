import UaBridge.Proofs.NodeId.Spelling

namespace UaBridge

variable {signed : Bool}

def Identifier.isLegible : Identifier → Bool
  | .string s => s.toList.getLast?.all fun c => !Text.isBlank c
  | .numeric _ | .guid _ | .bytes _ => true

def NodeId.isLegible (id : NodeId) : Bool := id.identifier.isLegible

namespace Guid

theorem length_group (g : Guid) {start count : Nat} (h : start + count ≤ 16) :
    ((g.bytes.drop start).take count).length = count := by
  have := g.length_eq
  rw [List.length_take, List.length_drop]
  omega

theorem append_groups (g : Guid) :
    (g.bytes.drop 0).take 4 ++ (g.bytes.drop 4).take 2 ++ (g.bytes.drop 6).take 2 ++
      (g.bytes.drop 8).take 2 ++ (g.bytes.drop 10).take 6 = g.bytes := by
  rw [List.drop_zero, ← List.take_add, ← List.take_add, ← List.take_add, ← List.take_add]
  exact List.take_of_length_le g.length_eq.le

theorem spells_chars (g : Guid) : g.Spells signed g.chars := by
  let group (start count : Nat) := Text.hex ((g.bytes.drop start).take count)
  have hgroup {start count : Nat} (h : start + count ≤ 16) :
      (group start count).length = 2 * count := by
    rw [Text.length_hex, g.length_group h]
  refine ⟨group 0 4, group 4 2, group 6 2, group 8 2, group 10 6, ?_, ?_, ?_⟩
  · simp only [List.map_cons, List.map_nil, hgroup (by decide : 0 + 4 ≤ 16),
      hgroup (by decide : 4 + 2 ≤ 16), hgroup (by decide : 6 + 2 ≤ 16),
      hgroup (by decide : 8 + 2 ≤ 16), hgroup (by decide : 10 + 6 ≤ 16)]
  · simp only [chars, List.append_assoc, List.cons_append, group]
  · rw [← g.append_groups]
    simp only [List.append_assoc]
    exact (Text.hexBytes_hex _).append ((Text.hexBytes_hex _).append
      ((Text.hexBytes_hex _).append ((Text.hexBytes_hex _).append (Text.hexBytes_hex _))))

theorem isBlank_of_mem_chars (g : Guid) : ∀ c ∈ g.chars, Text.isBlank c = false := by
  have hdash : Text.isBlank '-' = false := by decide
  simp only [chars, List.forall_mem_append, List.forall_mem_cons, hdash, true_and]
  exact ⟨⟨⟨⟨Text.isBlank_of_mem_hex _, Text.isBlank_of_mem_hex _⟩, Text.isBlank_of_mem_hex _⟩,
    Text.isBlank_of_mem_hex _⟩, Text.isBlank_of_mem_hex _⟩

end Guid

namespace Identifier

theorem isLegible_eq_true_iff {i : Identifier} : i.isLegible = true ↔
    ¬∃ s c, i = .string s ∧ s.toList.getLast? = some c ∧ Text.isBlank c = true := by
  cases i with
  | string s => cases hlast : s.toList.getLast? <;> simp [isLegible, hlast]
  | numeric _ | guid _ | bytes _ => simp [isLegible]

theorem isBlank_of_mem_head?_chars (i : Identifier) :
    ∀ c ∈ i.chars.head?, Text.isBlank c = false := by
  cases i <;> simp [chars] <;> decide

theorem isBlank_of_mem_getLast?_chars {i : Identifier} (h : i.isLegible = true) :
    ∀ c ∈ i.chars.getLast?, Text.isBlank c = false := by
  have hsep : Text.isBlank '=' = false := by decide
  -- An empty value leaves the equals sign at the end.
  have hlast : ∀ (kind : Char) (value : List Char),
      (∀ c ∈ value.getLast?, Text.isBlank c = false) →
        ∀ c ∈ (kind :: '=' :: value).getLast?, Text.isBlank c = false := by
    intro kind value hvalue
    cases value with
    | nil => simp [hsep]
    | cons c value => simpa [List.getLast?_cons_cons] using hvalue
  cases i with
  | numeric n =>
    refine hlast 'i' _ fun c hc => ?_
    exact Text.isBlank_eq_false_of_isDigit (Text.isDigit_of_mem_decimal (List.mem_of_getLast? hc))
  | string s =>
    refine hlast 's' _ fun c hc => ?_
    simpa [isLegible, Option.mem_def.1 hc] using h
  | guid g => exact hlast 'g' _ fun c hc => g.isBlank_of_mem_chars c (List.mem_of_getLast? hc)
  | bytes b =>
    exact hlast 'b' _ fun c hc => Text.Base64.isBlank_of_mem_encode b c (List.mem_of_getLast? hc)

theorem spells_chars (i : Identifier) : i.Spells signed i.chars := by
  cases i with
  | numeric n => exact .numeric (.digits (Text.digits_decimal _))
  | string s =>
    have h : Spells signed ('s' :: '=' :: s.toList) (.string (String.ofList s.toList)) := .string _
    rwa [String.ofList_toList] at h
  | guid g => exact .guid g.spells_chars
  | bytes b =>
    rw [chars, Text.Base64.encode_eq_padded]
    exact .bytes b

theorem Spells.isLegible {i : Identifier} {s : List Char} (h : i.Spells signed s)
    (hlast : ∀ c ∈ s.getLast?, Text.isBlank c = false) : i.isLegible = true := by
  cases h with
  | numeric _ | guid _ | bytes _ => rfl
  | string s =>
    cases s using List.reverseRecOn with
    | nil => rfl
    | append_singleton s c =>
      rw [← List.cons_append, ← List.cons_append, List.getLast?_concat] at hlast
      simp [Identifier.isLegible, hlast c rfl]

theorem Spells.ne_nil {i : Identifier} {s : List Char} (h : i.Spells signed s) : s ≠ [] := by
  cases h <;> exact List.cons_ne_nil _ _

theorem chars_ne_nil (i : Identifier) : i.chars ≠ [] :=
  (i.spells_chars : i.Spells false _).ne_nil

end Identifier

namespace NodeId

theorem trim_chars {id : NodeId} (h : id.isLegible = true) : Text.trim id.chars = id.chars := by
  have hlast := Identifier.isBlank_of_mem_getLast?_chars h
  rw [chars]
  split
  next => exact Text.trim_eq_self id.identifier.isBlank_of_mem_head?_chars hlast
  next =>
    refine Text.trim_eq_self (by rintro c ⟨⟩; decide) ?_
    rwa [List.getLast?_append_cons, List.getLast?_cons_of_ne_nil id.identifier.chars_ne_nil]

theorem spells_chars (id : NodeId) : id.Spells signed id.chars := by
  obtain ⟨ns, i⟩ := id
  rw [chars]
  split
  next hns =>
    cases hns
    exact .base i.spells_chars
  next => exact .space (.digits (Text.digits_decimal _)) i.spells_chars

theorem Spells.isLegible {id : NodeId} {s : List Char} (h : id.Spells signed s)
    (hlast : ∀ c ∈ s.getLast?, Text.isBlank c = false) : id.isLegible = true := by
  cases h with
  | base h => exact h.isLegible hlast
  | space _ h =>
    rw [List.getLast?_append_cons, List.getLast?_cons_of_ne_nil h.ne_nil] at hlast
    exact h.isLegible hlast

theorem isLegible_of_parse {id : NodeId} {s : String} (h : parse s = .ok id) :
    id.isLegible = true :=
  (parse_eq_ok_iff.1 h).isLegible Text.isBlank_of_mem_getLast?_trim

theorem parse_text {id : NodeId} (h : id.isLegible = true) : parse id.text = .ok id := by
  rw [parse_eq_ok_iff, text, String.toList_ofList, trim_chars h]
  exact id.spells_chars

theorem parse_text_eq_ok_iff {id : NodeId} : parse id.text = .ok id ↔ id.isLegible = true :=
  ⟨isLegible_of_parse, parse_text⟩

theorem Spells.separator_mem {id : NodeId} {s : List Char} (h : id.Spells signed s) :
    '=' ∈ s := by
  cases h with
  | base h => cases h <;> simp
  | space _ _ => simp

theorem separator_mem_text (id : NodeId) : '=' ∈ id.text.toList := by
  rw [text, String.toList_ofList]
  exact (id.spells_chars : id.Spells false id.chars).separator_mem

theorem parse_trimmed {s : String} {id : NodeId} :
    parse (Text.trimmed s) = .ok id ↔ parse s = .ok id := by
  rw [parse_eq_ok_iff, parse_eq_ok_iff, Text.trimmed, String.toList_ofList, Text.trim_trim]

theorem separator_mem_trimmed {s : String} {id : NodeId} (h : parse s = .ok id) :
    '=' ∈ (Text.trimmed s).toList := by
  rw [Text.trimmed, String.toList_ofList]
  exact (parse_eq_ok_iff.1 h).separator_mem

theorem trimmed_text {id : NodeId} (h : id.isLegible = true) : Text.trimmed id.text = id.text := by
  rw [Text.trimmed, text, String.toList_ofList, trim_chars h]

/-- A node id is read back from its text unless a string in it ends in white space. What was read
once is therefore read back. The bytes in a text are in padded base64, in writing and in reading. -/
theorem reads_own_text :
    (∀ id : NodeId, parse id.text = .ok id ↔
      ¬∃ s c, id.identifier = .string s ∧ s.toList.getLast? = some c ∧ Text.isBlank c = true) ∧
    (∀ (s : String) (id : NodeId), parse s = .ok id → parse id.text = .ok id) ∧
    (∀ bytes : List UInt8, Text.Base64.encode bytes = Text.Base64.padded bytes) ∧
    ∀ (s : List Char) (bytes : List UInt8),
      Text.Base64.decode s = some bytes ↔ s = Text.Base64.padded bytes := by
  refine ⟨fun id => ?_, fun s id h => parse_text (isLegible_of_parse h),
    Text.Base64.encode_eq_padded, fun s bytes => ?_⟩
  · exact parse_text_eq_ok_iff.trans Identifier.isLegible_eq_true_iff
  · rw [Text.Base64.decode_eq_some_iff, Text.Base64.encode_eq_padded]

/-- Only at the end is a blank lost, and a zero width space is none. -/
theorem reads_own_text_blank :
    parse (string 1 "Tank ").text ≠ .ok (string 1 "Tank ") ∧
      parse (string 1 "Tank\u3000").text ≠ .ok (string 1 "Tank\u3000") ∧
      parse (string 1 " Tank 1").text = .ok (string 1 " Tank 1") ∧
      parse (string 1 "Tank\u200b").text = .ok (string 1 "Tank\u200b") := by
  have hlost {s : String} {c : Char} (hlast : s.toList.getLast? = some c)
      (hblank : Text.isBlank c = true) : parse (string 1 s).text ≠ .ok (string 1 s) :=
    mt (reads_own_text.1 (string 1 s)).1 (not_not.2 ⟨s, c, rfl, hlast, hblank⟩)
  have hkept {s : String} {c : Char} (hlast : s.toList.getLast? = some c)
      (hblank : Text.isBlank c = false) : parse (string 1 s).text = .ok (string 1 s) := by
    refine (reads_own_text.1 (string 1 s)).2 ?_
    rintro ⟨_, c', ⟨⟩, hlast', hblank'⟩
    rw [Option.some.inj (hlast'.symm.trans hlast), hblank] at hblank'
    cases hblank'
  exact ⟨hlost rfl rfl, hlost rfl rfl, hkept rfl rfl, hkept rfl rfl⟩

end NodeId
end UaBridge
