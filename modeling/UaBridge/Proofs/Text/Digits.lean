import Mathlib.Data.List.Basic
import UaBridge.Proofs.Text.Blank
import UaBridge.Text.Digits

namespace UaBridge.Text

variable {signed : Bool} {s t r : List Char} {a b c : Char} {n v bound : Nat} {x : UInt8}
  {bytes : List UInt8}

structure Digits (s : List Char) (n : Nat) : Prop where
  ne_nil : s ≠ []
  isDigit : ∀ c ∈ s, c.isDigit = true
  value : Nat.ofDigitChars 10 s 0 = n

/-- Digits, and in a `signed` numeral perhaps a plus before them. -/
inductive Numeral (signed : Bool) : List Char → Nat → Prop
  | digits {s : List Char} {n : Nat} (h : Digits s n) : Numeral signed s n
  | plus {s : List Char} {n : Nat} (hsigned : signed = true) (h : Digits s n) :
    Numeral signed ('+' :: s) n

def IsHexDigit (c : Char) (v : Nat) : Prop :=
  v < 16 ∧ (c = v.digitChar ∨ c = v.digitChar.toUpper)

instance : Decidable (IsHexDigit c v) :=
  inferInstanceAs (Decidable (_ ∧ _))

inductive BytePair (signed : Bool) : Char → Char → UInt8 → Prop
  | digits {a b : Char} {h l : Nat} (ha : IsHexDigit a h) (hb : IsHexDigit b l) :
    BytePair signed a b (UInt8.ofNat (16 * h + l))
  | plus {b : Char} {l : Nat} (hsigned : signed = true) (hb : IsHexDigit b l) :
    BytePair signed '+' b (UInt8.ofNat l)

inductive HexBytes (signed : Bool) : List Char → List UInt8 → Prop
  | nil : HexBytes signed [] []
  | cons {a b : Char} {x : UInt8} {s : List Char} {bytes : List UInt8} (hpair : BytePair signed a b x)
    (hrest : HexBytes signed s bytes) : HexBytes signed (a :: b :: s) (x :: bytes)

theorem of_le_ascii {P : Char → Prop} {last : Char} (h : ∀ k : Fin 128, P (Char.ofNat k))
    (hlast : last.toNat < 128) (hc : c ≤ last) : P c := by
  have hlt : c.toNat < 128 := Nat.lt_of_le_of_lt (UInt32.le_iff_toNat_le.1 hc) hlast
  have hat := h ⟨c.toNat, hlt⟩
  rwa [Char.ofNat_toNat] at hat

theorem decimalDigit?_eq (c : Char) :
    decimalDigit? c = if c.isDigit then some (c.toNat - 48) else none := by
  simp only [decimalDigit?, Char.isDigit, Bool.and_eq_true, decide_eq_true_eq]
  rfl

theorem readDigits_decimal_eq (s : List Char) :
    readDigits decimalDigit? 10 s =
      if s.all Char.isDigit then some (Nat.ofDigitChars 10 s 0) else none := by
  suffices h : ∀ n, s.foldlM (fun n c => (decimalDigit? c).map (10 * n + ·)) n =
      if s.all Char.isDigit then some (Nat.ofDigitChars 10 s n) else none from h 0
  induction s with
  | nil => intro n; rfl
  | cons c s ih =>
    intro n
    rw [List.foldlM_cons, decimalDigit?_eq, List.all_cons]
    cases hc : c.isDigit with
    | false => rfl
    | true => exact ih _

theorem readNat_eq_some_iff : readNat decimalDigit? 10 s = some n ↔ Digits s n := by
  cases s with
  | nil => exact ⟨nofun, fun h => absurd rfl h.ne_nil⟩
  | cons c s =>
    rw [readNat, readDigits_decimal_eq, Option.ite_none_right_eq_some, List.all_eq_true,
      Option.some_inj]
    · exact ⟨fun ⟨hdigits, hvalue⟩ => ⟨List.cons_ne_nil c s, hdigits, hvalue⟩,
        fun h => ⟨h.isDigit, h.value⟩⟩
    · exact nofun

theorem Digits.head_ne_plus (h : Digits ('+' :: s) n) : False :=
  absurd (h.isDigit '+' List.mem_cons_self) (by decide)

theorem Numeral.not_mem (h : Numeral signed s n) (hdigit : c.isDigit = false) (hplus : c ≠ '+') :
    c ∉ s := by
  have hdigits {s : List Char} (h : Digits s n) : c ∉ s := fun hc => by
    simp [h.isDigit c hc] at hdigit
  cases h with
  | digits h => exact hdigits h
  | plus _ h => exact List.not_mem_cons_of_ne_of_not_mem hplus (hdigits h)

theorem Numeral.withSign {signed' : Bool} (h : Numeral signed s n)
    (hplus : signed = true → '+' ∈ s → signed' = true) : Numeral signed' s n := by
  cases h with
  | digits h => exact .digits h
  | plus hsigned h => exact .plus (hplus hsigned List.mem_cons_self) h

theorem readUnsigned_eq_some_iff :
    readUnsigned bound s = some n ↔ Numeral true s n ∧ n < bound := by
  unfold readUnsigned
  rw [Option.filter_eq_some_iff, decide_eq_true_eq]
  refine and_congr_left fun _ => ?_
  split
  next r =>
    rw [readNat_eq_some_iff]
    refine ⟨.plus rfl, fun h => ?_⟩
    cases h with
    | digits h => exact h.head_ne_plus.elim
    | plus _ h => exact h
  next hplus =>
    rw [readNat_eq_some_iff]
    refine ⟨.digits, fun h => ?_⟩
    cases h with
    | digits h => exact h
    | plus _ _ => exact absurd rfl (hplus _)

theorem hexDigit?_eq_some_iff : hexDigit? c = some v ↔ IsHexDigit c v := by
  constructor
  · intro h
    have hc : c ≤ 'f' := by
      unfold hexDigit? at h
      split_ifs at h with hdigit hlower hupper
      · exact Char.le_trans hdigit.2 (by decide)
      · exact hlower.2
      · exact Char.le_trans hupper.2 (by decide)
    exact of_le_ascii (P := fun c => ∀ v ∈ hexDigit? c, IsHexDigit c v) (by decide +kernel)
      (by decide) hc v h
  · rintro ⟨hv, hc⟩
    have hall : ∀ v : Fin 16, hexDigit? (Nat.digitChar v) = some v.val ∧
        hexDigit? (Nat.digitChar v).toUpper = some v.val := by decide
    obtain rfl | rfl := hc
    · exact (hall ⟨v, hv⟩).1
    · exact (hall ⟨v, hv⟩).2

theorem byteOfPair?_eq_some_iff : byteOfPair? a b = some x ↔ BytePair true a b x := by
  simp only [byteOfPair?, Option.bind_eq_some_iff, Option.map_eq_some_iff, hexDigit?_eq_some_iff]
  constructor
  · rintro ⟨h, hhigh, l, hlow, rfl⟩
    split at hhigh
    next hplus =>
      cases hhigh
      rw [hplus, Nat.mul_zero, Nat.zero_add]
      exact .plus rfl hlow
    next => exact .digits (hexDigit?_eq_some_iff.1 hhigh) hlow
  · intro hpair
    cases hpair with
    | digits ha hb =>
      have hplus : a ≠ '+' := by
        rintro rfl
        exact absurd (hexDigit?_eq_some_iff.2 ha) nofun
      exact ⟨_, (if_neg hplus).trans (hexDigit?_eq_some_iff.2 ha), _, hb, rfl⟩
    | plus _ hb => exact ⟨0, rfl, _, hb, by rw [Nat.mul_zero, Nat.zero_add]⟩

theorem HexBytes.withSign {signed' : Bool} (h : HexBytes signed s bytes)
    (hplus : signed = true → '+' ∈ s → signed' = true) : HexBytes signed' s bytes := by
  induction h with
  | nil => exact .nil
  | cons hpair _ ih =>
    refine .cons ?_ (ih fun hsigned hmem => hplus hsigned (by simp [hmem]))
    cases hpair with
    | digits ha hb => exact .digits ha hb
    | plus hsigned hb => exact .plus (hplus hsigned List.mem_cons_self) hb

theorem HexBytes.length_eq (h : HexBytes signed s bytes) : s.length = 2 * bytes.length := by
  induction h with
  | nil => rfl
  | cons _ _ ih => simp only [List.length_cons, ih]; omega

theorem HexBytes.isHexDigit (h : HexBytes false s bytes) : ∀ c ∈ s, ∃ v, IsHexDigit c v := by
  induction h with
  | nil => nofun
  | cons hpair _ ih =>
    cases hpair with
    | digits ha hb =>
      rw [List.forall_mem_cons, List.forall_mem_cons]
      exact ⟨⟨_, ha⟩, ⟨_, hb⟩, ih⟩
    | plus hsigned _ => cases hsigned

theorem HexBytes.append {more : List UInt8} (hs : HexBytes signed s bytes)
    (ht : HexBytes signed t more) : HexBytes signed (s ++ t) (bytes ++ more) := by
  induction hs with
  | nil => exact ht
  | cons hpair _ ih => exact .cons hpair ih

theorem HexBytes.exists_append (hs : s.length = 2 * n) (h : HexBytes signed (s ++ t) bytes) :
    ∃ first rest, bytes = first ++ rest ∧ first.length = n ∧ HexBytes signed s first ∧
      HexBytes signed t rest := by
  induction n generalizing s bytes with
  | zero =>
    obtain rfl := List.eq_nil_of_length_eq_zero hs
    exact ⟨[], bytes, rfl, rfl, .nil, h⟩
  | succ n ih =>
    obtain _ | ⟨a, _ | ⟨b, s⟩⟩ := s
    · cases hs
    · cases hs
    · cases h with
      | cons hpair hrest =>
        have hlength : s.length = 2 * n := by
          simp only [List.length_cons] at hs
          omega
        obtain ⟨first, rest, rfl, rfl, hfirst, hrest⟩ := ih hlength hrest
        exact ⟨_ :: first, rest, rfl, rfl, .cons hpair hfirst, hrest⟩

theorem readBytes_eq_some_iff :
    readBytes n s = some (bytes, r) ↔
      ∃ t, HexBytes true t bytes ∧ bytes.length = n ∧ s = t ++ r := by
  constructor
  · intro h
    induction n, s using readBytes.induct generalizing bytes with
    | case1 s =>
      cases h
      exact ⟨[], .nil, rfl, rfl⟩
    | case2 n a b s ih =>
      simp only [readBytes, Option.bind_eq_some_iff, Option.map_eq_some_iff, Prod.exists,
        byteOfPair?_eq_some_iff] at h
      obtain ⟨x, hpair, rest, r', hrest, heq⟩ := h
      cases heq
      obtain ⟨t, hbytes, rfl, rfl⟩ := ih hrest
      exact ⟨a :: b :: t, .cons hpair hbytes, rfl, rfl⟩
    | case3 n s hpair => simp_all [readBytes]
  · rintro ⟨t, hbytes, rfl, rfl⟩
    induction hbytes with
    | nil => rfl
    | cons hpair _ ih =>
      simp only [List.cons_append, List.length_cons, readBytes, byteOfPair?_eq_some_iff.2 hpair, ih,
        Option.bind_some, Option.map_some]

theorem isDigit_of_mem_decimal {n : Nat} {c : Char} (h : c ∈ decimal n) : c.isDigit = true :=
  Nat.isDigit_of_mem_toDigits (by decide) (by decide) h

theorem digits_decimal (n : Nat) : Digits (decimal n) n where
  ne_nil := Nat.toDigits_ne_nil
  isDigit _ := isDigit_of_mem_decimal
  value := Nat.ofDigitChars_ten_toDigits

theorem isHexDigit_hexDigit (h : n < 16) : IsHexDigit (hexDigit n) n := by
  have hall : ∀ n : Fin 16, IsHexDigit (hexDigit n) n := by decide
  exact hall ⟨n, h⟩

theorem bytePair_hexPair (b : UInt8) :
    BytePair signed (hexDigit (b.toNat / 16)) (hexDigit (b.toNat % 16)) b := by
  have hb := b.toNat_lt
  have hsum : 16 * (b.toNat / 16) + b.toNat % 16 = b.toNat := by omega
  have hpair : BytePair signed (hexDigit (b.toNat / 16)) (hexDigit (b.toNat % 16))
      (UInt8.ofNat (16 * (b.toNat / 16) + b.toNat % 16)) :=
    .digits (isHexDigit_hexDigit (by omega)) (isHexDigit_hexDigit (by omega))
  rwa [hsum, UInt8.ofNat_toNat] at hpair

theorem hexBytes_hex (bytes : List UInt8) : HexBytes signed (hex bytes) bytes := by
  induction bytes with
  | nil => exact .nil
  | cons b bytes ih => exact .cons (bytePair_hexPair b) ih

theorem length_hex (bytes : List UInt8) : (hex bytes).length = 2 * bytes.length :=
  (hexBytes_hex bytes : HexBytes false _ _).length_eq

theorem isBlank_hexDigit {n : Nat} (h : n < 16) : isBlank (hexDigit n) = false := by
  have hall : ∀ n : Fin 16, isBlank (hexDigit n) = false := by decide
  exact hall ⟨n, h⟩

theorem isBlank_of_mem_hex (bytes : List UInt8) : ∀ c ∈ hex bytes, isBlank c = false := by
  intro c hc
  obtain ⟨b, -, hc⟩ := List.mem_flatMap.1 hc
  have hb := b.toNat_lt
  have hpair : c = hexDigit (b.toNat / 16) ∨ c = hexDigit (b.toNat % 16) := by
    simpa [hexPair] using hc
  obtain rfl | rfl := hpair
  · exact isBlank_hexDigit (by omega)
  · exact isBlank_hexDigit (by omega)

end UaBridge.Text
