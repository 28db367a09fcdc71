import UaBridge.NodeId.Text
import UaBridge.Proofs.Text.Base64
import UaBridge.Proofs.Text.Blank
import UaBridge.Proofs.Text.Digits

/-!
The notation of node ids, said without the reader: an optional `ns=` part, then a kind and its
value. The reader accepts it, and besides it only a plus before a number or in place of the first
digit of a byte.
-/

namespace UaBridge

variable {signed : Bool} {s r : List Char}

def Guid.Spells (signed : Bool) (s : List Char) (g : Guid) : Prop :=
  ∃ a b c d e : List Char, [a, b, c, d, e].map List.length = [8, 4, 4, 4, 12] ∧
    s = a ++ '-' :: (b ++ '-' :: (c ++ '-' :: (d ++ '-' :: e))) ∧
    Text.HexBytes signed (a ++ (b ++ (c ++ (d ++ e)))) g.bytes

inductive Identifier.Spells (signed : Bool) : List Char → Identifier → Prop
  | numeric {s : List Char} {n : UInt32} (h : Text.Numeral signed s n.toNat) :
    Spells signed ('i' :: '=' :: s) (.numeric n)
  | string (s : List Char) : Spells signed ('s' :: '=' :: s) (.string (String.ofList s))
  | guid {s : List Char} {g : Guid} (h : g.Spells signed s) : Spells signed ('g' :: '=' :: s) (.guid g)
  | bytes (b : List UInt8) : Spells signed ('b' :: '=' :: Text.Base64.padded b) (.bytes b)

/-- `s` is a text for the node id; in a `signed` one a plus may stand before a number and for the
first digit of a byte. -/
inductive NodeId.Spells (signed : Bool) : List Char → NodeId → Prop
  | base {s : List Char} {i : Identifier} (h : i.Spells signed s) : Spells signed s ⟨0, i⟩
  | space {digits s : List Char} {ns : UInt16} {i : Identifier}
    (hns : Text.Numeral signed digits ns.toNat) (h : i.Spells signed s) :
    Spells signed ('n' :: 's' :: '=' :: digits ++ ';' :: s) ⟨ns, i⟩

namespace Guid

variable {g : Guid}

theorem dash?_eq_some_iff : dash? s = some r ↔ s = '-' :: r := by
  fun_cases dash? s with
  | case1 s => rw [Option.some_inj, List.cons_inj_right]
  | case2 s hdash => exact ⟨nofun, fun h => (hdash r h).elim⟩

theorem ofBytes?_eq_some_iff {bytes : List UInt8} : ofBytes? bytes = some g ↔ g.bytes = bytes := by
  rw [ofBytes?]
  split
  next h =>
    rw [Option.some_inj]
    exact ⟨fun heq => heq ▸ rfl, fun heq => by cases g; cases heq; rfl⟩
  next h => exact ⟨nofun, fun heq => (h (heq ▸ g.length_eq)).elim⟩

theorem read?_eq_some_iff : read? s = some g ↔ g.Spells true s := by
  simp only [read?, Option.bind_eq_bind, Option.bind_eq_some_iff, Prod.exists,
    Text.readBytes_eq_some_iff, dash?_eq_some_iff, Option.ite_none_right_eq_some,
    ofBytes?_eq_some_iff]
  constructor
  · rintro ⟨A, _, ⟨a, ha, hA, rfl⟩, _, rfl, B, _, ⟨b, hb, hB, rfl⟩, _, rfl, C, _, ⟨c, hc, hC, rfl⟩,
      _, rfl, D, _, ⟨d, hd, hD, rfl⟩, _, rfl, E, _, ⟨e, he, hE, rfl⟩, rfl, hg⟩
    refine ⟨a, b, c, d, e, ?_, by rw [List.append_nil], ?_⟩
    · simp only [List.map_cons, List.map_nil, ha.length_eq, hb.length_eq, hc.length_eq,
        hd.length_eq, he.length_eq, hA, hB, hC, hD, hE]
    · rw [hg, List.append_assoc, List.append_assoc, List.append_assoc]
      exact ha.append (hb.append (hc.append (hd.append he)))
  · rintro ⟨a, b, c, d, e, hlength, rfl, hbytes⟩
    simp only [List.map_cons, List.map_nil, List.cons.injEq, and_true] at hlength
    obtain ⟨ha, hb, hc, hd, he⟩ := hlength
    -- The digits of all groups are taken apart again where the dashes stand.
    obtain ⟨A, _, hA, hA4, ha, hbytes⟩ := hbytes.exists_append (n := 4) ha
    obtain ⟨B, _, rfl, hB, hb, hbytes⟩ := hbytes.exists_append (n := 2) hb
    obtain ⟨C, _, rfl, hC, hc, hbytes⟩ := hbytes.exists_append (n := 2) hc
    obtain ⟨D, E, rfl, hD, hd, hE⟩ := hbytes.exists_append (n := 2) hd
    have hE6 : E.length = 6 := by
      have := hE.length_eq
      omega
    exact ⟨A, _, ⟨a, ha, hA4, rfl⟩, _, rfl, B, _, ⟨b, hb, hB, rfl⟩, _, rfl, C, _, ⟨c, hc, hC, rfl⟩, _,
      rfl, D, _, ⟨d, hd, hD, rfl⟩, _, rfl, E, _, ⟨e, hE, hE6, (List.append_nil e).symm⟩, rfl,
      by rw [hA, List.append_assoc, List.append_assoc, List.append_assoc]⟩

end Guid

namespace NodeId

variable {i : Identifier} {id : NodeId} {ns : UInt16} {body : List Char}

theorem spells_of_readIdentifier (h : readIdentifier s = .ok i) : i.Spells true s := by
  unfold readIdentifier at h
  split at h
  next value hcut =>
    obtain ⟨-, rfl⟩ := Text.cut?_eq_some_iff.1 hcut
    split at h
    next => cases h
    next n hread =>
      cases h
      obtain ⟨hnumeral, hlt⟩ := Text.readUnsigned_eq_some_iff.1 hread
      exact .numeric (by rwa [UInt32.toNat_ofNat_of_lt' hlt])
  next value hcut =>
    obtain ⟨-, rfl⟩ := Text.cut?_eq_some_iff.1 hcut
    cases h
    exact .string value
  next value hcut =>
    obtain ⟨-, rfl⟩ := Text.cut?_eq_some_iff.1 hcut
    split at h
    next => cases h
    next g hread =>
      cases h
      exact .guid (Guid.read?_eq_some_iff.1 hread)
  next value hcut =>
    obtain ⟨-, rfl⟩ := Text.cut?_eq_some_iff.1 hcut
    split at h
    next => cases h
    next b hread =>
      cases h
      rw [Text.Base64.decode_eq_some_iff.1 hread, Text.Base64.encode_eq_padded]
      exact .bytes b
  next => cases h

theorem readIdentifier_of_spells (h : i.Spells true s) : readIdentifier s = .ok i := by
  cases h with
  | @numeric s n h =>
    simp [readIdentifier, Text.cut?, Text.readUnsigned_eq_some_iff.2 ⟨h, n.toNat_lt⟩]
  | string s => simp [readIdentifier, Text.cut?]
  | guid h => simp [readIdentifier, Text.cut?, Guid.read?_eq_some_iff.2 h]
  | bytes b =>
    simp [readIdentifier, Text.cut?, ← Text.Base64.encode_eq_padded, Text.Base64.decode_encode]

theorem readSpace_space {digits : List Char} (h : Text.Numeral true digits ns.toNat) :
    readSpace ('n' :: 's' :: '=' :: digits ++ ';' :: s) = .ok (ns, s) := by
  have hsep : ';' ∉ digits := h.not_mem (by decide) (by decide)
  simp [readSpace, Text.cut?_append hsep, Text.readUnsigned_eq_some_iff.2 ⟨h, ns.toNat_lt⟩]

theorem readSpace_base (h : i.Spells signed s) : readSpace s = .ok (0, s) := by
  cases h <;> rfl

theorem spells_of_readSpace (h : readSpace s = .ok (ns, body)) (hi : i.Spells true body) :
    (⟨ns, i⟩ : NodeId).Spells true s := by
  unfold readSpace at h
  split at h
  next rest =>
    split at h
    next => cases h
    next digits body hcut =>
      obtain ⟨-, rfl⟩ := Text.cut?_eq_some_iff.1 hcut
      split at h
      next => cases h
      next n hread =>
        cases h
        obtain ⟨hnumeral, hlt⟩ := Text.readUnsigned_eq_some_iff.1 hread
        exact .space (by rwa [UInt16.toNat_ofNat_of_lt' hlt]) hi
  next =>
    cases h
    exact .base hi

theorem read_eq_ok_iff : read s = .ok id ↔ id.Spells true (Text.trim s) := by
  unfold read
  generalize Text.trim s = t
  constructor
  · intro h
    split at h
    next => cases h
    next ns body hspace =>
      split at h
      next => cases h
      next i hi =>
        cases h
        exact spells_of_readSpace hspace (spells_of_readIdentifier hi)
  · intro h
    cases h with
    | base hi => simp only [readSpace_base hi, readIdentifier_of_spells hi]
    | space hns hi => simp only [readSpace_space hns, readIdentifier_of_spells hi]

theorem parse_eq_ok_iff {text : String} :
    parse text = .ok id ↔ id.Spells true (Text.trim text.toList) := by
  rw [← read_eq_ok_iff, parse]
  split
  next id' hread => rw [hread, Except.ok.injEq, Except.ok.injEq]
  next f hread => simp only [hread, reduceCtorEq]

end NodeId

section sign
variable {signed' : Bool}

theorem Guid.Spells.withSign {g : Guid} (h : g.Spells signed s)
    (hplus : signed = true → '+' ∈ s → signed' = true) : g.Spells signed' s := by
  obtain ⟨a, b, c, d, e, hlength, rfl, hbytes⟩ := h
  refine ⟨a, b, c, d, e, hlength, rfl, hbytes.withSign fun hsigned hmem => hplus hsigned ?_⟩
  simp only [List.mem_append, List.mem_cons] at hmem ⊢
  tauto

theorem Identifier.Spells.withSign {i : Identifier} (h : i.Spells signed s)
    (hplus : signed = true → '+' ∈ s → signed' = true) : i.Spells signed' s := by
  have hvalue {kind : Char} {value : List Char} (hmem : '+' ∈ value) : '+' ∈ kind :: '=' :: value :=
    List.mem_cons_of_mem _ (List.mem_cons_of_mem _ hmem)
  cases h with
  | numeric h => exact .numeric (h.withSign fun hsigned hmem => hplus hsigned (hvalue hmem))
  | string s => exact .string s
  | guid h => exact .guid (h.withSign fun hsigned hmem => hplus hsigned (hvalue hmem))
  | bytes b => exact .bytes b

theorem NodeId.Spells.withSign {id : NodeId} (h : id.Spells signed s)
    (hplus : signed = true → '+' ∈ s → signed' = true) : id.Spells signed' s := by
  cases h with
  | base h => exact .base (h.withSign hplus)
  | space hns h =>
    refine .space (hns.withSign fun hsigned hmem => hplus hsigned ?_)
      (h.withSign fun hsigned hmem => hplus hsigned ?_)
    · simp [hmem]
    · simp [hmem]

end sign

theorem Guid.Spells.isHexDigit {g : Guid} (h : g.Spells false s) :
    ∀ c ∈ s, c = '-' ∨ ∃ v, Text.IsHexDigit c v := by
  obtain ⟨a, b, c, d, e, -, rfl, hbytes⟩ := h
  have hdigits := hbytes.isHexDigit
  intro x hx
  simp only [List.mem_append, List.mem_cons] at hx hdigits
  grind

namespace NodeId

/-- The reader accepts the notation. Besides it the reader accepts only what has a plus before a
number or for the first digit of a byte, so without a plus nothing but the notation. -/
theorem parse_accepts_notation (text : String) (id : NodeId) :
    (parse text = .ok id ↔ id.Spells true (Text.trim text.toList)) ∧
      (id.Spells false (Text.trim text.toList) → parse text = .ok id) ∧
      ('+' ∉ Text.trim text.toList →
        (parse text = .ok id ↔ id.Spells false (Text.trim text.toList))) := by
  have hnotation (h : id.Spells false (Text.trim text.toList)) : parse text = .ok id :=
    parse_eq_ok_iff.2 (h.withSign nofun)
  refine ⟨parse_eq_ok_iff, hnotation, fun hplus => ⟨fun h => ?_, hnotation⟩⟩
  exact (parse_eq_ok_iff.1 h).withSign fun _ hmem => absurd hmem hplus

/-- A plus before a number and one within a GUID are read over, though the notation has neither. -/
theorem parse_reads_over_plus :
    (parse "i=+5" = .ok (numeric 0 5) ∧
      ∀ id : NodeId, ¬id.Spells false (Text.trim "i=+5".toList)) ∧
    parse "g=+9087e75-8e5e-499b-954f-f2a9603db28a" = .ok ⟨0, .guid ⟨[0x09, 0x08, 0x7e, 0x75, 0x8e,
      0x5e, 0x49, 0x9b, 0x95, 0x4f, 0xf2, 0xa9, 0x60, 0x3d, 0xb2, 0x8a], rfl⟩⟩ ∧
      ∀ id : NodeId, ¬id.Spells false
        (Text.trim "g=+9087e75-8e5e-499b-954f-f2a9603db28a".toList) := by
  refine ⟨⟨by rfl, fun id h => ?_⟩, by rfl, fun id h => ?_⟩
  · have htrim : Text.trim "i=+5".toList = ['i', '=', '+', '5'] := by decide
    rw [htrim] at h
    cases h with
    | base h =>
      cases h with
      | numeric h =>
        cases h with
        | digits h => exact h.head_ne_plus
        | plus hsigned _ => cases hsigned
  · have htrim : Text.trim "g=+9087e75-8e5e-499b-954f-f2a9603db28a".toList =
        'g' :: '=' :: "+9087e75-8e5e-499b-954f-f2a9603db28a".toList := by decide
    rw [htrim] at h
    cases h with
    | base h =>
      cases h with
      | guid h =>
        obtain hdash | ⟨v, hv⟩ := h.isHexDigit '+' (by decide)
        · exact absurd hdash (by decide)
        · exact absurd (Text.hexDigit?_eq_some_iff.2 hv) nofun

end NodeId
end UaBridge
