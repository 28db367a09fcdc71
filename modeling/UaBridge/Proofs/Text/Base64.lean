import UaBridge.Proofs.Text.Digits
import UaBridge.Text.Base64

namespace UaBridge.Text

def bits (b : UInt8) : List Bool := [7, 6, 5, 4, 3, 2, 1, 0].map b.toNat.testBit

def ofBits (l : List Bool) : Nat := l.foldl (fun n b => 2 * n + b.toNat) 0

namespace Base64

theorem value?_symbol {n : Nat} (h : n < 64) : value? (symbol n) = some n := by
  have hall : ∀ n : Fin 64, value? (symbol n) = some n.val := by decide
  exact hall ⟨n, h⟩

theorem symbol_ne_padding {n : Nat} (h : n < 64) : symbol n ≠ '=' := by
  have hall : ∀ n : Fin 64, symbol n ≠ '=' := by decide
  exact hall ⟨n, h⟩

theorem isBlank_symbol (n : Nat) : isBlank (symbol n) = false := by
  by_cases h : n < 64
  · have hall : ∀ n : Fin 64, isBlank (symbol n) = false := by decide
    exact hall ⟨n, h⟩
  · have hslash : symbol n = '/' := by
      rw [symbol, if_neg (by omega), if_neg (by omega), if_neg (by omega), if_neg (by omega)]
    rw [hslash]
    decide

theorem lastOne?_eq (a : UInt8) : lastOne? (a.toNat / 4) (a.toNat % 4 * 16) = some [a] := by
  have ha := a.toNat_lt
  have hrest : a.toNat % 4 * 16 % 16 = 0 := by omega
  have hsum : a.toNat / 4 * 4 + a.toNat % 4 * 16 / 16 = a.toNat := by omega
  rw [lastOne?, if_pos hrest, hsum, UInt8.ofNat_toNat]

theorem lastTwo?_eq (a b : UInt8) :
    lastTwo? (a.toNat / 4) (a.toNat % 4 * 16 + b.toNat / 16) (b.toNat % 16 * 4) = some [a, b] := by
  have hb := b.toNat_lt
  have hrest : b.toNat % 16 * 4 % 4 = 0 := by omega
  have ha : a.toNat / 4 * 4 + (a.toNat % 4 * 16 + b.toNat / 16) / 16 = a.toNat := by omega
  have hb : (a.toNat % 4 * 16 + b.toNat / 16) % 16 * 16 + b.toNat % 16 * 4 / 4 = b.toNat := by
    omega
  rw [lastTwo?, if_pos hrest, ha, hb, UInt8.ofNat_toNat, UInt8.ofNat_toNat]

theorem three_eq (a b c : UInt8) :
    three (a.toNat / 4) (a.toNat % 4 * 16 + b.toNat / 16) (b.toNat % 16 * 4 + c.toNat / 64)
      (c.toNat % 64) = [a, b, c] := by
  have hb := b.toNat_lt
  have hc := c.toNat_lt
  have ha : a.toNat / 4 * 4 + (a.toNat % 4 * 16 + b.toNat / 16) / 16 = a.toNat := by omega
  have hb : (a.toNat % 4 * 16 + b.toNat / 16) % 16 * 16 +
      (b.toNat % 16 * 4 + c.toNat / 64) / 4 = b.toNat := by omega
  have hc : (b.toNat % 16 * 4 + c.toNat / 64) % 4 * 64 + c.toNat % 64 = c.toNat := by omega
  rw [three, ha, hb, hc, UInt8.ofNat_toNat, UInt8.ofNat_toNat, UInt8.ofNat_toNat]

theorem decode_encode (bytes : List UInt8) : decode (encode bytes) = some bytes := by
  induction bytes using encode.induct with
  | case1 => rfl
  | case2 a =>
    have ha := a.toNat_lt
    have h₁ : a.toNat / 4 < 64 := by omega
    have h₂ : a.toNat % 4 * 16 < 64 := by omega
    simp [encode, decode, value?_symbol h₁, value?_symbol h₂, lastOne?_eq]
  | case3 a b =>
    have ha := a.toNat_lt
    have hb := b.toNat_lt
    have h₁ : a.toNat / 4 < 64 := by omega
    have h₂ : a.toNat % 4 * 16 + b.toNat / 16 < 64 := by omega
    have h₃ : b.toNat % 16 * 4 < 64 := by omega
    simp [encode, decode, value?_symbol h₁, value?_symbol h₂, value?_symbol h₃,
      symbol_ne_padding h₃, lastTwo?_eq]
  | case4 a b c bytes ih =>
    have ha := a.toNat_lt
    have hb := b.toNat_lt
    have hc := c.toNat_lt
    have h₁ : a.toNat / 4 < 64 := by omega
    have h₂ : a.toNat % 4 * 16 + b.toNat / 16 < 64 := by omega
    have h₃ : b.toNat % 16 * 4 + c.toNat / 64 < 64 := by omega
    have h₄ : c.toNat % 64 < 64 := by omega
    simp [encode, decode, value?_symbol h₁, value?_symbol h₂, value?_symbol h₃, value?_symbol h₄,
      symbol_ne_padding h₃, symbol_ne_padding h₄, three_eq, ih]

theorem isBlank_of_mem_encode (bytes : List UInt8) : ∀ c ∈ encode bytes, isBlank c = false := by
  have hpadding : isBlank '=' = false := by decide
  induction bytes using encode.induct with
  | case1 => simp [encode]
  | case2 a => simp [encode, isBlank_symbol, hpadding]
  | case3 a b => simp [encode, isBlank_symbol, hpadding]
  | case4 a b c bytes ih => simpa [encode, isBlank_symbol] using ih

def alphabet : List Char :=
  "ABCDEFGHIJKLMNOPQRSTUVWXYZabcdefghijklmnopqrstuvwxyz0123456789+/".toList

def sextets : List Bool → List (List Bool)
  | a :: b :: c :: d :: e :: f :: rest => [a, b, c, d, e, f] :: sextets rest
  | [] => []
  | last => [(last ++ List.replicate 5 false).take 6]

def symbolOf (sextet : List Bool) : Char := alphabet.getD (ofBits sextet) '='

/-- The bits of all bytes in one row, a symbol for each six of them, and padding up to a number of
characters that four divides. -/
def padded (bytes : List UInt8) : List Char :=
  let symbols := (sextets (bytes.flatMap bits)).map symbolOf
  symbols ++ List.replicate ((4 - symbols.length % 4) % 4) '='

theorem symbolOf_eq {sextet : List Bool} {n : Nat} (h : ofBits sextet = n) (hn : n < 64) :
    symbolOf sextet = symbol n := by
  have hall : ∀ n : Fin 64, alphabet.getD n.val '=' = symbol n := by decide +kernel
  rw [symbolOf, h]
  exact hall ⟨n, hn⟩

theorem symbolOf_bits {b₅ b₄ b₃ b₂ b₁ b₀ : Bool} {n : Nat}
    (h : 32 * b₅.toNat + 16 * b₄.toNat + 8 * b₃.toNat + 4 * b₂.toNat + 2 * b₁.toNat + b₀.toNat =
      n) : symbolOf [b₅, b₄, b₃, b₂, b₁, b₀] = symbol n := by
  have hlt : ∀ b₅ b₄ b₃ b₂ b₁ b₀ : Bool, 32 * b₅.toNat + 16 * b₄.toNat + 8 * b₃.toNat +
      4 * b₂.toNat + 2 * b₁.toNat + b₀.toNat < 64 := by decide
  refine symbolOf_eq ?_ (h ▸ hlt b₅ b₄ b₃ b₂ b₁ b₀)
  rw [← h]
  simp only [ofBits, List.foldl_cons, List.foldl_nil]
  omega

theorem map_symbolOf_three (a b c : UInt8) (rest : List Bool) :
    (sextets (bits a ++ (bits b ++ (bits c ++ rest)))).map symbolOf =
      symbol (a.toNat / 4) :: symbol (a.toNat % 4 * 16 + b.toNat / 16) ::
        symbol (b.toNat % 16 * 4 + c.toNat / 64) :: symbol (c.toNat % 64) ::
          (sextets rest).map symbolOf := by
  have ha := a.toNat_lt
  have hb := b.toNat_lt
  have hc := c.toNat_lt
  refine congrArg₂ List.cons (symbolOf_bits ?_) (congrArg₂ List.cons (symbolOf_bits ?_)
    (congrArg₂ List.cons (symbolOf_bits ?_) (congrArg₂ List.cons (symbolOf_bits ?_) rfl)))
  all_goals
    simp only [Nat.toNat_testBit]
    omega

theorem map_symbolOf_one (a : UInt8) :
    (sextets (bits a)).map symbolOf = [symbol (a.toNat / 4), symbol (a.toNat % 4 * 16)] := by
  have hzeros : (sextets (bits a)).map symbolOf =
      ((sextets (bits a ++ (bits 0 ++ (bits 0 ++ [])))).map symbolOf).take 2 := rfl
  rw [hzeros, map_symbolOf_three]
  rfl

theorem map_symbolOf_two (a b : UInt8) :
    (sextets (bits a ++ bits b)).map symbolOf =
      [symbol (a.toNat / 4), symbol (a.toNat % 4 * 16 + b.toNat / 16), symbol (b.toNat % 16 * 4)] := by
  have hzeros : (sextets (bits a ++ bits b)).map symbolOf =
      ((sextets (bits a ++ (bits b ++ (bits 0 ++ [])))).map symbolOf).take 3 := rfl
  rw [hzeros, map_symbolOf_three]
  rfl

theorem encode_eq_padded (bytes : List UInt8) : encode bytes = padded bytes := by
  induction bytes using encode.induct with
  | case1 => rfl
  | case2 a =>
    simp only [padded, List.flatMap_cons, List.flatMap_nil, List.append_nil, map_symbolOf_one]
    rfl
  | case3 a b =>
    simp only [padded, List.flatMap_cons, List.flatMap_nil, List.append_nil, map_symbolOf_two]
    rfl
  | case4 a b c bytes ih =>
    have hlength (n : Nat) : (n + 1 + 1 + 1 + 1) % 4 = n % 4 := by omega
    simp only [encode, padded, List.flatMap_cons, map_symbolOf_three, List.length_cons, hlength, ih,
      List.cons_append]

theorem of_value? {c : Char} {n : Nat} (h : value? c = some n) : n < 64 ∧ symbol n = c := by
  have hc : c ≤ 'z' := by
    unfold value? at h
    split_ifs at h with hupper hlower hdigit hplus hslash
    · exact Char.le_trans hupper.2 (by decide)
    · exact hlower.2
    · exact Char.le_trans hdigit.2 (by decide)
    · exact hplus ▸ by decide
    · exact hslash ▸ by decide
  exact of_le_ascii (P := fun c => ∀ n ∈ value? c, n < 64 ∧ symbol n = c) (by decide +kernel)
    (by decide) hc n h

section last
variable {a b c d : Nat} {bytes : List UInt8}

theorem encode_of_lastOne? (ha : a < 64) (hb : b < 64) (h : lastOne? a b = some bytes) :
    encode bytes = [symbol a, symbol b, '=', '='] := by
  rw [lastOne?] at h
  split at h
  next hrest =>
    cases h
    have hx : (UInt8.ofNat (a * 4 + b / 16)).toNat = a * 4 + b / 16 := by
      rw [UInt8.toNat_ofNat']; omega
    have h₁ : (a * 4 + b / 16) / 4 = a := by omega
    have h₂ : (a * 4 + b / 16) % 4 * 16 = b := by omega
    rw [encode, hx, h₁, h₂]
  next => cases h

theorem encode_of_lastTwo? (ha : a < 64) (hb : b < 64) (hc : c < 64)
    (h : lastTwo? a b c = some bytes) :
    encode bytes = [symbol a, symbol b, symbol c, '='] := by
  rw [lastTwo?] at h
  split at h
  next hrest =>
    cases h
    have hx : (UInt8.ofNat (a * 4 + b / 16)).toNat = a * 4 + b / 16 := by
      rw [UInt8.toNat_ofNat']; omega
    have hy : (UInt8.ofNat (b % 16 * 16 + c / 4)).toNat = b % 16 * 16 + c / 4 := by
      rw [UInt8.toNat_ofNat']; omega
    have h₁ : (a * 4 + b / 16) / 4 = a := by omega
    have h₂ : (a * 4 + b / 16) % 4 * 16 + (b % 16 * 16 + c / 4) / 16 = b := by omega
    have h₃ : (b % 16 * 16 + c / 4) % 16 * 4 = c := by omega
    rw [encode, hx, hy, h₁, h₂, h₃]
  next => cases h

theorem encode_three_append (ha : a < 64) (hb : b < 64) (hc : c < 64) (hd : d < 64)
    (bytes : List UInt8) :
    encode (three a b c d ++ bytes) = symbol a :: symbol b :: symbol c :: symbol d :: encode bytes := by
  have hx : (UInt8.ofNat (a * 4 + b / 16)).toNat = a * 4 + b / 16 := by
    rw [UInt8.toNat_ofNat']; omega
  have hy : (UInt8.ofNat (b % 16 * 16 + c / 4)).toNat = b % 16 * 16 + c / 4 := by
    rw [UInt8.toNat_ofNat']; omega
  have hz : (UInt8.ofNat (c % 4 * 64 + d)).toNat = c % 4 * 64 + d := by
    rw [UInt8.toNat_ofNat']; omega
  have h₁ : (a * 4 + b / 16) / 4 = a := by omega
  have h₂ : (a * 4 + b / 16) % 4 * 16 + (b % 16 * 16 + c / 4) / 16 = b := by omega
  have h₃ : (b % 16 * 16 + c / 4) % 16 * 4 + (c % 4 * 64 + d) / 64 = c := by omega
  have h₄ : (c % 4 * 64 + d) % 64 = d := by omega
  rw [three, List.cons_append, List.cons_append, List.cons_append, List.nil_append, encode, hx, hy,
    hz, h₁, h₂, h₃, h₄]

end last

theorem encode_of_decode_eq_some {s : List Char} {bytes : List UInt8} (h : decode s = some bytes) :
    encode bytes = s := by
  induction s using decode.induct generalizing bytes with
  | case1 =>
    cases h
    rfl
  | case2 a b c d r ih =>
    simp only [decode, Option.bind_eq_some_iff] at h
    obtain ⟨x, hx, y, hy, h⟩ := h
    obtain ⟨hxlt, rfl⟩ := of_value? hx
    obtain ⟨hylt, rfl⟩ := of_value? hy
    split at h
    next hlast =>
      obtain ⟨rfl, rfl, rfl⟩ := hlast
      exact encode_of_lastOne? hxlt hylt h
    next =>
      rw [Option.bind_eq_some_iff] at h
      obtain ⟨z, hz, h⟩ := h
      obtain ⟨hzlt, rfl⟩ := of_value? hz
      split at h
      next hlast =>
        obtain ⟨rfl, rfl⟩ := hlast
        exact encode_of_lastTwo? hxlt hylt hzlt h
      next =>
        rw [Option.bind_eq_some_iff] at h
        obtain ⟨w, hw, h⟩ := h
        obtain ⟨hwlt, rfl⟩ := of_value? hw
        obtain ⟨rest, hrest, rfl⟩ := Option.map_eq_some_iff.1 h
        rw [encode_three_append hxlt hylt hzlt hwlt, ih hrest]
  | case3 s hnil hfour => simp_all [decode]

theorem decode_eq_some_iff {s : List Char} {bytes : List UInt8} :
    decode s = some bytes ↔ s = encode bytes :=
  ⟨fun h => (encode_of_decode_eq_some h).symm, fun h => h ▸ decode_encode bytes⟩

end Base64
end UaBridge.Text
