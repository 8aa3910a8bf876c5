import ProviderSdk.Decimal.Binary64

/-!
# The fewest digits that read back

For a finite binary number that is not zero: the decimal with the fewest digits among those that round to
it, and of those the one nearest to it. For each count of digits it is enough to look at the two neighbours of
the number on the decimal grid of that many digits; the first grid with a hit decides.
-/

namespace ProviderSdk.Decimal

/-- The decimal `digits · 10 ^ exponent`. -/
structure Numeral where
  digits : Nat
  exponent : Int
  deriving DecidableEq, Repr, Inhabited

/-- Which neighbour to take when a number lies exactly between them. -/
inductive TieRule where
  | toEven
  | up
  deriving DecidableEq, Repr

/-- The count of decimal digits of a natural number; zero has one. -/
def digitCount (n : Nat) : Nat := (Nat.toDigits 10 n).length

/-- The greatest `E` with `10 ^ E ≤ num / den`, for a positive quotient. -/
def decimalExponent (num den : Nat) : Int :=
  if den ≤ num then (digitCount (num / den) : Int) - 1
  else
    let j := digitCount (den / num) - 1
    if den = num * Nat.pow 10 j then -(j : Int) else -((j : Int) + 1)

def gridQuotient (num den : Nat) (k : Int) : Nat × Nat :=
  if 0 ≤ k then (num, den * Nat.pow 10 k.toNat) else (num * Nat.pow 10 (-k).toNat, den)

/-- The decimals that round to a number lie between `low / den` and `high / den`, the ends included iff
`closed`; the number itself is `value / den`. -/
structure RoundingInterval where
  low : Nat
  value : Nat
  high : Nat
  den : Nat
  closed : Bool
  deriving Repr

namespace RoundingInterval

/-- The interval of a finite number's magnitude: half way to its neighbours, in quarters of a unit. -/
def of (x : Binary64) : RoundingInterval :=
  let m := x.significand
  let q := x.scale - 2
  let below := if m = Nat.pow 2 52 ∧ 1 < x.exponentBits then 1 else 2
  let (factor, den) := if 0 ≤ q then (Nat.pow 2 q.toNat, 1) else (1, Nat.pow 2 (-q).toNat)
  ⟨(4 * m - below) * factor, 4 * m * factor, (4 * m + 2) * factor, den, m % 2 = 0⟩

/-- Whether `d · 10 ^ k` lies in the interval. -/
def contains (i : RoundingInterval) (d : Nat) (k : Int) : Bool :=
  let (low, den) := gridQuotient i.low i.den k
  let (high, _) := gridQuotient i.high i.den k
  if i.closed then decide (low ≤ d * den) && decide (d * den ≤ high)
  else decide (low < d * den) && decide (d * den < high)

/-- The neighbour on the grid of `10 ^ k` that reads back, the nearer one if both do. -/
def onGrid? (i : RoundingInterval) (tie : TieRule) (k : Int) : Option Numeral :=
  let (v, den) := gridQuotient i.value i.den k
  let d := v / den
  match i.contains d k, i.contains (d + 1) k with
  | false, false => none
  | true, false => some ⟨d, k⟩
  | false, true => some ⟨d + 1, k⟩
  | true, true =>
    let twice := 2 * (v - d * den)
    if twice < den then some ⟨d, k⟩
    else if den < twice then some ⟨d + 1, k⟩
    else match tie with
      | .toEven => some (if d % 2 = 0 then ⟨d, k⟩ else ⟨d + 1, k⟩)
      | .up => some ⟨d + 1, k⟩

end RoundingInterval

/-- The decimal with as many of its zeros at the end moved into the exponent as `fuel` allows. -/
def Numeral.withoutEndZeros : (fuel : Nat) → Numeral → Numeral
  | 0, x => x
  | fuel + 1, x =>
    if x.digits ≠ 0 ∧ x.digits % 10 = 0 then withoutEndZeros fuel ⟨x.digits / 10, x.exponent + 1⟩ else x

/-- The shortest decimal that reads back as the magnitude of `x`. Seventeen digits always do. -/
def Binary64.shortest (x : Binary64) (tie : TieRule) : Numeral :=
  let i := RoundingInterval.of x
  let top := decimalExponent i.value i.den
  match (List.range 17).findSome? (fun n : Nat => i.onGrid? tie (top - n)) with
  | some d => d.withoutEndZeros 17
  | none => ⟨0, 0⟩

end ProviderSdk.Decimal
