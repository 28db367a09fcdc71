namespace UaBridge

structure Layout where
  exponentBits : Nat
  fractionBits : Nat

namespace Layout

def single : Layout := ⟨8, 23⟩

def double : Layout := ⟨11, 52⟩

def negative (l : Layout) (bits : Nat) : Bool :=
  bits >>> (l.exponentBits + l.fractionBits) % 2 == 1

def exponent (l : Layout) (bits : Nat) : Nat := bits >>> l.fractionBits % 1 <<< l.exponentBits

def fraction (l : Layout) (bits : Nat) : Nat := bits % 1 <<< l.fractionBits

def maxExponent (l : Layout) : Nat := 1 <<< l.exponentBits - 1

def pack (l : Layout) (negative : Bool) (exponent fraction : Nat) : Nat :=
  (if negative then 1 <<< (l.exponentBits + l.fractionBits) else 0) +
    exponent <<< l.fractionBits + fraction

def isNaN (l : Layout) (bits : Nat) : Bool :=
  l.exponent bits == l.maxExponent && l.fraction bits != 0

def isZero (l : Layout) (bits : Nat) : Bool := l.exponent bits == 0 && l.fraction bits == 0

def same (l : Layout) (a b : Nat) : Bool :=
  !l.isNaN a && !l.isNaN b && (a == b || (l.isZero a && l.isZero b))

end Layout

/-- What a bit pattern stands for; a finite number is `significand * 2 ^ exponent` with its sign. -/
inductive FloatValue where
  | nan
  | infinite (negative : Bool)
  | finite (negative : Bool) (significand : Nat) (exponent : Int)
  deriving DecidableEq

def Layout.value (l : Layout) (bits : Nat) : FloatValue :=
  let bias : Nat := 1 <<< (l.exponentBits - 1) - 1
  let e := l.exponent bits
  let f := l.fraction bits
  if e = l.maxExponent then
    if f = 0 then .infinite (l.negative bits) else .nan
  else if e = 0 then .finite (l.negative bits) f (1 - (bias + l.fractionBits : Nat))
  else .finite (l.negative bits) (1 <<< l.fractionBits + f) (e - (bias + l.fractionBits : Nat))

structure Binary32 where
  bits : UInt32
  deriving DecidableEq

structure Binary64 where
  bits : UInt64
  deriving DecidableEq

namespace Binary32

def isNaN (x : Binary32) : Bool := Layout.single.isNaN x.bits.toNat

def same (x y : Binary32) : Bool := Layout.single.same x.bits.toNat y.bits.toNat

def widen (x : Binary32) : Binary64 :=
  let bits := x.bits.toNat
  let sign := Layout.single.negative bits
  let e := Layout.single.exponent bits
  let f := Layout.single.fraction bits
  ⟨UInt64.ofNat <|
    if e = 255 then
      Layout.double.pack sign 2047 (if f = 0 then 0 else 1 <<< 51 + f <<< 29 % 1 <<< 51)
    else if e = 0 then
      if f = 0 then Layout.double.pack sign 0 0
      else Layout.double.pack sign (f.log2 + 874) ((f - 1 <<< f.log2) <<< (52 - f.log2))
    else Layout.double.pack sign (e + 896) (f <<< 29)⟩

end Binary32

namespace Binary64

def isNaN (x : Binary64) : Bool := Layout.double.isNaN x.bits.toNat

def same (x y : Binary64) : Bool := Layout.double.same x.bits.toNat y.bits.toNat

def narrow? (x : Binary64) : Option Binary32 :=
  let bits := x.bits.toNat
  let sign := Layout.double.negative bits
  let e := Layout.double.exponent bits
  let f := Layout.double.fraction bits
  let exactly (exponent n count : Nat) : Option Nat :=
    if n % 1 <<< count = 0 then some (Layout.single.pack sign exponent (n >>> count)) else none
  Binary32.mk <$> UInt32.ofNat <$>
    if e = 2047 then
      some (Layout.single.pack sign 255 (if f = 0 then 0 else 1 <<< 22 + f >>> 29 % 1 <<< 22))
    else if e = 0 then if f = 0 then some (Layout.single.pack sign 0 0) else none
    else if 897 ≤ e ∧ e ≤ 1150 then exactly (e - 896) f 29
    else if 874 ≤ e ∧ e ≤ 896 then exactly 0 (1 <<< 52 + f) (29 + (897 - e))
    else none

end Binary64
end UaBridge
