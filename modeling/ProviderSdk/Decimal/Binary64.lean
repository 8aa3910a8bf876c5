/-!
# Binary floating-point numbers of 64 bits

A number is its bits. The finite ones stand for `(-1)^sign · m · 2^q` with natural `m` and integral
`q`, and all arithmetic here is exact arithmetic on `m` and `q`, rounded once to the nearest
representable number, a tie going to the even significand.
-/

namespace ProviderSdk.Decimal

/-- A binary floating-point number, given by its 64 bits. -/
structure Binary64 where
  bits : UInt64
  deriving DecidableEq, Repr, Inhabited

namespace Binary64

/-- Whether the sign bit is set. -/
def isNegative (x : Binary64) : Bool := decide (Nat.pow 2 63 ≤ x.bits.toNat)

def exponentBits (x : Binary64) : Nat := x.bits.toNat / Nat.pow 2 52 % Nat.pow 2 11

def fractionBits (x : Binary64) : Nat := x.bits.toNat % Nat.pow 2 52

/-- Neither an infinity nor a NaN. -/
def isFinite (x : Binary64) : Bool := x.exponentBits != 2047

def isNaN (x : Binary64) : Bool := x.exponentBits == 2047 && x.fractionBits != 0

/-- The integral significand `m` of a finite number. -/
def significand (x : Binary64) : Nat :=
  if x.exponentBits = 0 then x.fractionBits else Nat.pow 2 52 + x.fractionBits

/-- The exponent `q` of a finite number. -/
def scale (x : Binary64) : Int := (max x.exponentBits 1 : Nat) - 1075

/-- Whether the number is a zero of either sign. -/
def isZero (x : Binary64) : Bool := x.exponentBits == 0 && x.fractionBits == 0

def ofFields (negative : Bool) (exponent fraction : Nat) : Binary64 :=
  ⟨UInt64.ofNat ((if negative then Nat.pow 2 63 else 0) + exponent * Nat.pow 2 52 + fraction)⟩

def infinity (negative : Bool) : Binary64 := ofFields negative 2047 0

def nan : Binary64 := ofFields false 2047 (Nat.pow 2 51)

def zero (negative : Bool) : Binary64 := ofFields negative 0 0

/-- The quotient `num / den`, rounded to the nearest integer, ties to even. -/
def roundDiv (num den : Nat) : Nat :=
  let q := num / den
  let r := num % den
  if 2 * r < den then q
  else if den < 2 * r then q + 1
  else if q % 2 = 0 then q else q + 1

/-- `num / den · 2 ^ (-e)` as a quotient of naturals. -/
def scaledDown (num den : Nat) (e : Int) : Nat × Nat :=
  if 0 ≤ e then (num, den * Nat.pow 2 e.toNat) else (num * Nat.pow 2 (-e).toNat, den)

/-- The exponent of the unit in the last place for the positive quotient `num / den`: the quotient has 53 bits
before the point when it is scaled by it, but the exponent is never below that of the smallest number. -/
def unitExponent (num den : Nat) : Int :=
  let e : Int := (Nat.log2 num : Int) - (Nat.log2 den : Int) - 52
  let (n, d) := scaledDown num den e
  max (if n / d < Nat.pow 2 52 then e - 1 else e) (-1074)

/-- The number with the natural significand `m` (at most `2 ^ 53`) and the exponent `e` of a unit. -/
def ofSignificand (negative : Bool) (m : Nat) (e : Int) : Binary64 :=
  if m < Nat.pow 2 52 then ofFields negative 0 m
  else
    let (m, e) := if m < Nat.pow 2 53 then (m, e) else (m / 2, e + 1)
    if 971 < e then infinity negative
    else ofFields negative (e + 1075).toNat (m - Nat.pow 2 52)

/-- The number nearest to `± num / den`, a tie going to the even significand; too large a quotient gives
an infinity. The denominator is positive. -/
def ofQuotient (negative : Bool) (num den : Nat) : Binary64 :=
  if num = 0 then zero negative
  else
    let e := unitExponent num den
    let (n, d) := scaledDown num den e
    ofSignificand negative (roundDiv n d) e

/-- The number nearest to an integer. -/
def ofInt (n : Int) : Binary64 := ofQuotient (decide (n < 0)) n.natAbs 1

/-- The number nearest to `± digits · 10 ^ exponent`. -/
def ofDecimal (negative : Bool) (digits : Nat) (exponent : Int) : Binary64 :=
  if 0 ≤ exponent then ofQuotient negative (digits * Nat.pow 10 exponent.toNat) 1
  else ofQuotient negative digits (Nat.pow 10 (-exponent).toNat)

/-- The magnitude of a finite number as a quotient of naturals. -/
def magnitude (x : Binary64) : Nat × Nat :=
  if 0 ≤ x.scale then (x.significand * Nat.pow 2 x.scale.toNat, 1)
    else (x.significand, Nat.pow 2 (-x.scale).toNat)

def mul (x y : Binary64) : Binary64 :=
  let (a, b) := x.magnitude
  let (c, d) := y.magnitude
  ofQuotient (x.isNegative != y.isNegative) (a * c) (b * d)

/-- The quotient of finite numbers, the divisor not being zero. -/
def div (x y : Binary64) : Binary64 :=
  let (a, b) := x.magnitude
  let (c, d) := y.magnitude
  ofQuotient (x.isNegative != y.isNegative) (a * d) (b * c)

def negated (x : Binary64) : Binary64 := ofFields (!x.isNegative) x.exponentBits x.fractionBits

/-- The integer next to a finite number in the direction of zero. -/
def truncated (x : Binary64) : Int :=
  let (num, den) := x.magnitude
  if x.isNegative then -((num / den : Nat) : Int) else ((num / den : Nat) : Int)

/-- The integer next to the number in the direction of zero, held between `lo` and `hi`; a NaN gives
zero. -/
def clampedInt (x : Binary64) (lo hi : Int) : Int :=
  if x.isNaN then 0
  else if !x.isFinite then (if x.isNegative then lo else hi)
  else max lo (min hi x.truncated)

end Binary64

end ProviderSdk.Decimal
