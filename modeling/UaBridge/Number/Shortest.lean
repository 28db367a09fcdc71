import UaBridge.Number.Binary
import UaBridge.Text.Digits

/-!
Decimal text of floating point numbers: the fewest digits that read back to the same number, always
positional.
-/

namespace UaBridge.Shortest

/-- The numbers that round to `centre`, in units of `num / den`; `closed` says that the ends do. -/
structure Interval where
  low : Nat
  centre : Nat
  high : Nat
  closed : Bool
  num : Nat
  den : Nat

def Interval.around (l : Layout) (significand : Nat) (exponent : Int) : Interval where
  low := 4 * significand - if significand = 1 <<< l.fractionBits then 1 else 2
  centre := 4 * significand
  high := 4 * significand + 2
  closed := significand % 2 == 0
  num := 1 <<< (exponent - 2).toNat
  den := 1 <<< (2 - exponent).toNat

structure Decimal where
  digits : Nat
  exponent : Int
  deriving DecidableEq

/-- The multiple of `10 ^ k` next to the centre that lies in the interval; the nearer one if both
neighbours do, and the upper one at equal distance. -/
def Interval.onGrid? (i : Interval) (k : Int) : Option Decimal :=
  let scale := i.num * Nat.pow 10 (-k).toNat
  let step := i.den * Nat.pow 10 k.toNat
  let inside (n : Nat) : Bool :=
    if i.closed then i.low * scale ≤ n * step && n * step ≤ i.high * scale
    else i.low * scale < n * step && n * step < i.high * scale
  let below := i.centre * scale / step
  let up := 2 * (i.centre * scale % step) ≥ step
  match inside below, inside (below + 1) with
  | true, true => some ⟨if up then below + 1 else below, k⟩
  | true, false => some ⟨below, k⟩
  | false, true => some ⟨below + 1, k⟩
  | false, false => none

def Interval.search (i : Interval) : Nat → Int → Option Decimal
  | 0, _ => none
  | steps + 1, k => (i.onGrid? k).orElse fun _ => i.search steps (k - 1)

def startExponent (significand : Nat) (exponent : Int) : Int :=
  (significand.log2 + 2 + exponent) * 30103 / 100000 + 1

def decimal (l : Layout) (significand : Nat) (exponent : Int) : Decimal :=
  ((Interval.around l significand exponent).search 24 (startExponent significand exponent)).getD
    ⟨0, 0⟩

def Decimal.chars (d : Decimal) : List Char :=
  let digits := Text.decimal d.digits
  let point := digits.length + d.exponent
  if 0 ≤ d.exponent then digits ++ List.replicate d.exponent.toNat '0'
  else if 0 < point then digits.take point.toNat ++ '.' :: digits.drop point.toNat
  else '0' :: '.' :: List.replicate (-point).toNat '0' ++ digits

def chars (l : Layout) (bits : Nat) : List Char :=
  let signed (negative : Bool) (s : List Char) := if negative then '-' :: s else s
  match l.value bits with
  | .nan => ['N', 'a', 'N']
  | .infinite negative => signed negative ['i', 'n', 'f']
  | .finite negative significand exponent =>
    signed negative (if significand = 0 then ['0'] else (decimal l significand exponent).chars)

end Shortest

def Binary32.text (x : Binary32) : String := String.ofList (Shortest.chars .single x.bits.toNat)

def Binary64.text (x : Binary64) : String := String.ofList (Shortest.chars .double x.bits.toNat)

end UaBridge
