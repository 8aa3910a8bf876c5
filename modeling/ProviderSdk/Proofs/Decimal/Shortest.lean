import Mathlib.Algebra.Order.Field.Power
import Mathlib.Data.Nat.Cast.Order.Field
import Mathlib.Data.Rat.Defs
import Mathlib.Tactic.FieldSimp
import Mathlib.Tactic.Linarith
import Mathlib.Tactic.NormNum
import Mathlib.Tactic.Positivity
import Mathlib.Tactic.Ring
import ProviderSdk.Decimal.Shortest

/-!
# Shortest decimals

Some grid of at most seventeen digits has a decimal that rounds to a given number, so that the
search for the shortest one ends with such a decimal. The intervals of decimals that round to a
number have nothing in common for different magnitudes. So the shortest decimal determines the
magnitude.
-/

namespace ProviderSdk.Decimal

def Numeral.value (d : Numeral) : ℚ := d.digits * (10 : ℚ) ^ d.exponent

theorem Numeral.value_withoutEndZeros (fuel : Nat) (d : Numeral) :
    (d.withoutEndZeros fuel).value = d.value := by
  induction fuel generalizing d with
  | zero => rfl
  | succ fuel ih =>
    rw [withoutEndZeros]
    split
    · next h =>
      have hdigits : d.digits = d.digits / 10 * 10 := by omega
      have hcast : (d.digits : ℚ) = (d.digits / 10 : ℕ) * 10 := by exact_mod_cast hdigits
      rw [ih, value, value, hcast, zpow_add₀ (by norm_num), zpow_one]
      ring
    · rfl

theorem digitCount_pos (n : Nat) : 0 < digitCount n := Nat.length_toDigits_pos

theorem lt_pow_of_digitCount_le {n k : Nat} (h : digitCount n ≤ k) : n < 10 ^ k :=
  (Nat.length_toDigits_le_iff (by decide) (lt_of_lt_of_le (digitCount_pos n) h)).mp h

theorem pow_le_of_lt_digitCount {n k : Nat} (hn : 0 < n) (h : k < digitCount n) : 10 ^ k ≤ n := by
  rcases Nat.eq_zero_or_pos k with rfl | hk
  · exact hn
  · by_contra hlt
    have hle := (Nat.length_toDigits_le_iff (b := 10) (by decide) hk).mpr (not_le.mp hlt)
    exact absurd h (not_lt.mpr hle)

/-- The decimal exponent of a positive quotient does not exceed it. -/
theorem pow_decimalExponent_le {num den : Nat} (hnum : 0 < num) (hden : 0 < den) :
    (10 : ℚ) ^ decimalExponent num den ≤ num / den := by
  have hden' : (0 : ℚ) < den := by exact_mod_cast hden
  have hnum' : (0 : ℚ) < num := by exact_mod_cast hnum
  rw [decimalExponent]
  split
  · next hle =>
    obtain ⟨j, hj⟩ : ∃ j, digitCount (num / den) = j + 1 :=
        ⟨_, (Nat.succ_pred_eq_of_pos (digitCount_pos _)).symm⟩
    have hpow : 10 ^ j ≤ num / den := pow_le_of_lt_digitCount (Nat.div_pos hle hden) (by omega)
    have hquotient : ((10 ^ j : ℕ) : ℚ) ≤ ((num / den : ℕ) : ℚ) := by exact_mod_cast hpow
    rw [hj]
    calc (10 : ℚ) ^ (((j + 1 : ℕ) : ℤ) - 1) = ((10 ^ j : ℕ) : ℚ) := by
          push_cast
          rw [add_sub_cancel_right, zpow_natCast]
      _ ≤ ((num / den : ℕ) : ℚ) := hquotient
      _ ≤ num / den := Nat.cast_div_le
  · next hlt =>
    obtain ⟨j, hj⟩ : ∃ j, digitCount (den / num) = j + 1 :=
        ⟨_, (Nat.succ_pred_eq_of_pos (digitCount_pos _)).symm⟩
    simp only [hj, Nat.add_sub_cancel]
    split
    · next heq =>
      have hcast : (den : ℚ) = num * 10 ^ j := by exact_mod_cast heq
      rw [zpow_neg, zpow_natCast, hcast, le_div_iff₀ (by positivity)]
      apply le_of_eq
      field_simp
    · have hlt : den / num < 10 ^ (j + 1) := lt_pow_of_digitCount_le hj.le
      have hden : (den : ℚ) < num * 10 ^ (j + 1) := by
        have h := (Nat.div_lt_iff_lt_mul hnum).mp hlt
        rw [Nat.mul_comm] at h
        exact_mod_cast h
      rw [zpow_neg, show ((j : ℤ) + 1) = ((j + 1 : ℕ) : ℤ) by push_cast; rfl, zpow_natCast, inv_eq_one_div,
        div_le_div_iff₀ (by positivity) hden', one_mul]
      exact hden.le

theorem gridQuotient_eq (num : Nat) {den : Nat} (hden : 0 < den) (k : Int) :
    0 < (gridQuotient num den k).2 ∧
      ((gridQuotient num den k).1 : ℚ) / (gridQuotient num den k).2 = num / den / (10 : ℚ) ^ k := by
  unfold gridQuotient
  split
  · next hk =>
    obtain ⟨j, rfl⟩ := Int.eq_ofNat_of_zero_le hk
    refine ⟨Nat.mul_pos hden (Nat.pow_pos (by decide)), ?_⟩
    simp only [Int.toNat_natCast, zpow_natCast, Nat.pow_eq]
    push_cast
    rw [div_div]
  · next hk =>
    obtain ⟨j, hj⟩ := Int.eq_ofNat_of_zero_le (show 0 ≤ -k by omega)
    obtain rfl : k = -j := by omega
    refine ⟨hden, ?_⟩
    simp only [neg_neg, Int.toNat_natCast, zpow_neg, zpow_natCast, Nat.pow_eq]
    push_cast
    rw [div_inv_eq_mul, mul_div_right_comm]

theorem gridQuotient_le_iff (num : Nat) {den : Nat} (hden : 0 < den) (k : Int) (d : Nat) :
    (gridQuotient num den k).1 ≤ d * (gridQuotient num den k).2 ↔ (num : ℚ) / den ≤ d * (10 : ℚ) ^ k := by
  obtain ⟨hpos, hquotient⟩ := gridQuotient_eq num hden k
  have hpos' : (0 : ℚ) < (gridQuotient num den k).2 := by exact_mod_cast hpos
  rw [← div_le_iff₀ (by positivity : (0 : ℚ) < 10 ^ k), ← hquotient, div_le_iff₀ hpos']
  exact_mod_cast Iff.rfl

theorem le_gridQuotient_iff (num : Nat) {den : Nat} (hden : 0 < den) (k : Int) (d : Nat) :
    d * (gridQuotient num den k).2 ≤ (gridQuotient num den k).1 ↔ d * (10 : ℚ) ^ k ≤ (num : ℚ) / den := by
  obtain ⟨hpos, hquotient⟩ := gridQuotient_eq num hden k
  have hpos' : (0 : ℚ) < (gridQuotient num den k).2 := by exact_mod_cast hpos
  rw [← le_div_iff₀ (by positivity : (0 : ℚ) < 10 ^ k), ← hquotient, le_div_iff₀ hpos']
  exact_mod_cast Iff.rfl

namespace RoundingInterval

def Holds (i : RoundingInterval) (v : ℚ) : Prop :=
  if i.closed then (i.low : ℚ) / i.den ≤ v ∧ v ≤ i.high / i.den
    else (i.low : ℚ) / i.den < v ∧ v < i.high / i.den

variable {i : RoundingInterval} {v : ℚ} {k : Int}

theorem Holds.le (h : i.Holds v) : (i.low : ℚ) / i.den ≤ v ∧ v ≤ i.high / i.den := by
  unfold Holds at h
  split at h
  · exact h
  · exact ⟨h.1.le, h.2.le⟩

theorem holds_of_between (hlow : (i.low : ℚ) / i.den < v) (hhigh : v < i.high / i.den) : i.Holds v := by
  unfold Holds
  split
  · exact ⟨hlow.le, hhigh.le⟩
  · exact ⟨hlow, hhigh⟩

theorem Holds.closed_of_eq (h : i.Holds v) (hend : v = i.low / i.den ∨ v = i.high / i.den) :
    i.closed = true := by
  unfold Holds at h
  split at h
  · assumption
  · rcases hend with rfl | rfl
    · exact absurd h.1 (lt_irrefl _)
    · exact absurd h.2 (lt_irrefl _)

theorem contains_iff (hden : 0 < i.den) (d : Nat) (k : Int) :
    i.contains d k = true ↔ i.Holds (d * (10 : ℚ) ^ k) := by
  have hsame : (gridQuotient i.low i.den k).2 = (gridQuotient i.high i.den k).2 := by
    unfold gridQuotient
    split <;> rfl
  have hlow := gridQuotient_le_iff i.low hden k d
  have hhigh := le_gridQuotient_iff i.high hden k d
  have hlow' := le_gridQuotient_iff i.low hden k d
  have hhigh' := gridQuotient_le_iff i.high hden k d
  rw [← hsame] at hhigh hhigh'
  unfold contains Holds
  cases i.closed with
  | true => simp only [if_true, Bool.and_eq_true, decide_eq_true_eq, hlow, hhigh]
  | false =>
    simp only [Bool.false_eq_true, if_false, Bool.and_eq_true, decide_eq_true_eq]
    rw [← not_le, ← not_le, hlow', hhigh', not_le, not_le]

/-- A neighbour on a grid that is found lies in the interval. -/
theorem holds_of_onGrid? (hden : 0 < i.den) {tie : TieRule} {x : Numeral} (h : i.onGrid? tie k = some x) :
    i.Holds x.value := by
  have hfound (d : Nat) (hd : i.contains d k = true) : i.Holds (Numeral.value ⟨d, k⟩) :=
    (contains_iff hden d k).mp hd
  unfold onGrid? at h
  dsimp only at h
  split at h
  · cases h
  · next hd _ =>
    cases h
    exact hfound _ hd
  · next _ hd =>
    cases h
    exact hfound _ hd
  · next hd hd' =>
    split at h
    · cases h
      exact hfound _ hd
    · split at h
      · cases h
        exact hfound _ hd'
      · cases tie with
        | up =>
          cases h
          exact hfound _ hd'
        | toEven =>
          dsimp only at h
          split at h
          · cases h
            exact hfound _ hd
          · cases h
            exact hfound _ hd'

/-- On a grid that is finer than the interval is wide, one of the two neighbours lies in the interval. -/
theorem exists_onGrid? (hden : 0 < i.den) (tie : TieRule) (hvalue : i.low < i.value ∧ i.value < i.high)
    (hwidth : (10 : ℚ) ^ k < i.high / i.den - i.low / i.den) : ∃ x, i.onGrid? tie k = some x := by
  have hden' : (0 : ℚ) < i.den := by exact_mod_cast hden
  have hlow : (i.low : ℚ) / i.den < i.value / i.den :=
    (div_lt_div_iff_of_pos_right hden').mpr (by exact_mod_cast hvalue.1)
  have hhigh : (i.value : ℚ) / i.den < i.high / i.den :=
    (div_lt_div_iff_of_pos_right hden').mpr (by exact_mod_cast hvalue.2)
  obtain ⟨hpos, -⟩ := gridQuotient_eq i.value hden k
  generalize hd : (gridQuotient i.value i.den k).1 / (gridQuotient i.value i.den k).2 = d
  have hbelow : (d : ℚ) * 10 ^ k ≤ i.value / i.den := by
    rw [← le_gridQuotient_iff _ hden, ← hd]
    exact Nat.div_mul_le_self _ _
  have habove : (i.value : ℚ) / i.den ≤ ((d + 1 : ℕ) : ℚ) * 10 ^ k := by
    rw [← gridQuotient_le_iff _ hden, ← hd]
    exact ((Nat.div_lt_iff_lt_mul hpos).mp (Nat.lt_succ_self _)).le
  have hone : i.contains d k = true ∨ i.contains (d + 1) k = true := by
    by_contra hnone
    rw [not_or, contains_iff hden, contains_iff hden] at hnone
    have hfirst : (d : ℚ) * 10 ^ k ≤ i.low / i.den := by
      by_contra hlt
      exact hnone.1 (holds_of_between (not_le.mp hlt) (hbelow.trans_lt hhigh))
    have hsecond : (i.high : ℚ) / i.den ≤ ((d + 1 : ℕ) : ℚ) * 10 ^ k := by
      by_contra hlt
      exact hnone.2 (holds_of_between (hlow.trans_le habove) (not_le.mp hlt))
    push_cast at hsecond
    linarith
  cases hfound : i.onGrid? tie k with
  | some x => exact ⟨x, rfl⟩
  | none =>
    exfalso
    unfold onGrid? at hfound
    dsimp only at hfound
    rw [hd] at hfound
    split at hfound
    · next hnone hnone' => simp [hnone, hnone'] at hone
    · cases hfound
    · cases hfound
    · split at hfound
      · cases hfound
      · split at hfound
        · cases hfound
        · split at hfound <;> cases hfound

end RoundingInterval

namespace Binary64

variable {x y : Binary64}

theorem significand_lt (x : Binary64) : x.significand < 2 ^ 53 := by
  have hfraction : x.fractionBits < Nat.pow 2 52 := Nat.mod_lt _ (by decide)
  unfold significand
  simp only [Nat.pow_eq] at hfraction ⊢
  split <;> omega

theorem significand_pos (hx : x.isZero = false) : 0 < x.significand := by
  unfold significand
  split
  · next hexponent =>
    have hfraction : x.fractionBits ≠ 0 := by simpa [isZero, hexponent] using hx
    exact Nat.pos_of_ne_zero hfraction
  · exact Nat.lt_of_lt_of_le (by decide) (Nat.le_add_right (Nat.pow 2 52) _)

theorem magnitude_of_isZero (hx : x.isZero = true) : x.significand = 0 ∧ x.scale = -1074 := by
  obtain ⟨hexponent, hfraction⟩ : x.exponentBits = 0 ∧ x.fractionBits = 0 := by simpa [isZero] using hx
  rw [significand, scale, if_pos hexponent, hexponent]
  exact ⟨hfraction, rfl⟩

/-- Only a number in the lowest scale has less than 53 bits. -/
theorem significand_ge (hx : -1074 < x.scale) : 2 ^ 52 ≤ x.significand ∧ 1 < x.exponentBits := by
  unfold scale at hx
  have hexponent : 1 < x.exponentBits := by omega
  refine ⟨?_, hexponent⟩
  rw [significand, if_neg (by omega)]
  exact Nat.le_add_right _ _

theorem scale_ge (x : Binary64) : -1074 ≤ x.scale := by
  unfold scale
  omega

def quarter (x : Binary64) : ℚ := (2 : ℚ) ^ (x.scale - 2)

theorem quarter_pos (x : Binary64) : 0 < x.quarter := by
  unfold quarter
  positivity

/-- How many quarters of a unit the interval reaches below a number: at a power of two the numbers
below lie closer. -/
def quartersBelow (x : Binary64) : Nat := if x.significand = Nat.pow 2 52 ∧ 1 < x.exponentBits then 1 else 2

theorem quartersBelow_le (x : Binary64) : 1 ≤ x.quartersBelow ∧ x.quartersBelow ≤ 2 := by
  unfold quartersBelow
  split <;> decide

end Binary64

open Binary64

namespace RoundingInterval

variable {x y : Binary64} {v : ℚ}

/-- The interval of a number in quarters of its unit. -/
structure Measures (i : RoundingInterval) (x : Binary64) : Prop where
  den : 0 < i.den
  low : (i.low : ℚ) / i.den = ((4 * x.significand - x.quartersBelow : ℕ) : ℚ) * x.quarter
  value : (i.value : ℚ) / i.den = ((4 * x.significand : ℕ) : ℚ) * x.quarter
  high : (i.high : ℚ) / i.den = ((4 * x.significand + 2 : ℕ) : ℚ) * x.quarter
  closed : i.closed = true ↔ x.significand % 2 = 0

theorem measures_of (x : Binary64) : (of x).Measures x := by
  by_cases hq : 0 ≤ x.scale - 2
  · have hfactor (n : ℕ) : ((n * Nat.pow 2 (x.scale - 2).toNat : ℕ) : ℚ) / (1 : ℕ) = n * x.quarter := by
      obtain ⟨j, hj⟩ := Int.eq_ofNat_of_zero_le hq
      rw [quarter, hj]
      simp
    have hof : of x = ⟨(4 * x.significand - x.quartersBelow) * Nat.pow 2 (x.scale - 2).toNat,
        4 * x.significand * Nat.pow 2 (x.scale - 2).toNat,
        (4 * x.significand + 2) * Nat.pow 2 (x.scale - 2).toNat, 1,
        decide (x.significand % 2 = 0)⟩ := by
      simp only [of, if_pos hq, quartersBelow]
    rw [hof]
    exact ⟨Nat.one_pos, hfactor _, hfactor _, hfactor _, decide_eq_true_iff⟩
  · have hfactor (n : ℕ) : ((n * 1 : ℕ) : ℚ) / (Nat.pow 2 (-(x.scale - 2)).toNat : ℕ) = n * x.quarter := by
      obtain ⟨j, hj⟩ := Int.eq_ofNat_of_zero_le (show 0 ≤ -(x.scale - 2) by omega)
      have hscale : x.scale - 2 = -(j : ℤ) := by omega
      rw [quarter, hscale]
      simp [div_eq_mul_inv]
    have hof : of x = ⟨(4 * x.significand - x.quartersBelow) * 1, 4 * x.significand * 1,
        (4 * x.significand + 2) * 1, Nat.pow 2 (-(x.scale - 2)).toNat, decide (x.significand % 2 = 0)⟩ := by
      simp only [of, if_neg hq, quartersBelow]
    rw [hof]
    exact ⟨Nat.pow_pos (by decide), hfactor _, hfactor _, hfactor _, decide_eq_true_iff⟩

end RoundingInterval

open RoundingInterval

/-- The interval is wider than the number divided by ten to the sixteenth. -/
theorem Binary64.lt_width (x : Binary64) : 4 * x.significand < (x.quartersBelow + 2) * 10 ^ 16 := by
  have hlt := x.significand_lt
  unfold quartersBelow
  split
  · next h =>
    simp only [Nat.pow_eq] at h
    omega
  · omega

/-- The search ends with a decimal that rounds to the number. -/
theorem Binary64.holds_shortest {x : Binary64} (hx : x.isZero = false) (tie : TieRule) :
    (of x).Holds (x.shortest tie).value := by
  obtain ⟨hden, hlow, hvalue, hhigh, -⟩ := measures_of x
  have hden' : (0 : ℚ) < (of x).den := by exact_mod_cast hden
  have hsignificand := significand_pos hx
  have hquarter := x.quarter_pos
  have hbelow := x.quartersBelow_le
  have hbetween : (of x).low < (of x).value ∧ (of x).value < (of x).high := by
    constructor
    · have h : ((of x).low : ℚ) / (of x).den < (of x).value / (of x).den := by
        rw [hlow, hvalue]
        exact mul_lt_mul_of_pos_right (by exact_mod_cast (by omega)) hquarter
      exact_mod_cast (div_lt_div_iff_of_pos_right hden').mp h
    · have h : ((of x).value : ℚ) / (of x).den < (of x).high / (of x).den := by
        rw [hvalue, hhigh]
        exact mul_lt_mul_of_pos_right (by exact_mod_cast (by omega)) hquarter
      exact_mod_cast (div_lt_div_iff_of_pos_right hden').mp h
  have htop : (10 : ℚ) ^ decimalExponent (of x).value (of x).den ≤
      ((4 * x.significand : ℕ) : ℚ) * x.quarter := by
    rw [← hvalue]
    exact pow_decimalExponent_le (by omega) hden
  -- Seventeen digits are enough.
  have hwidth : (10 : ℚ) ^ (decimalExponent (of x).value (of x).den - (16 : ℕ)) <
      (of x).high / (of x).den - (of x).low / (of x).den := by
    have hstep : ((4 * x.significand : ℕ) : ℚ) * x.quarter <
        (((x.quartersBelow + 2 : ℕ) : ℚ) * x.quarter) * 10 ^ 16 := by
      rw [mul_right_comm]
      exact mul_lt_mul_of_pos_right (by exact_mod_cast x.lt_width) hquarter
    have hdifference : ((of x).high : ℚ) / (of x).den - (of x).low / (of x).den =
        ((x.quartersBelow + 2 : ℕ) : ℚ) * x.quarter := by
      rw [hhigh, hlow, ← sub_mul, Nat.cast_sub (by omega)]
      push_cast
      ring
    rw [hdifference, zpow_sub₀ (by norm_num), zpow_natCast, div_lt_iff₀ (by positivity)]
    exact htop.trans_lt hstep
  obtain ⟨found, hfound⟩ := exists_onGrid? hden tie hbetween hwidth
  unfold shortest
  dsimp only
  split
  · next d hsome =>
    obtain ⟨n, -, hn⟩ := List.exists_of_findSome?_eq_some hsome
    rw [Numeral.value_withoutEndZeros]
    exact holds_of_onGrid? hden hn
  · next hnone =>
    have h := List.findSome?_eq_none_iff.mp hnone 16 (by decide)
    rw [hfound] at h
    cases h

theorem Binary64.value_shortest_pos {x : Binary64} (hx : x.isZero = false) (tie : TieRule) :
    0 < (x.shortest tie).value := by
  have hmeasures := measures_of x
  have hsignificand := significand_pos hx
  have hbelow := x.quartersBelow_le
  refine lt_of_lt_of_le ?_ (holds_shortest hx tie).le.1
  rw [hmeasures.low]
  exact mul_pos (by exact_mod_cast (by omega)) x.quarter_pos

section

variable {x y : Binary64} {v : ℚ}

/-- The interval of a number ends where that of a greater significand of the same scale begins, or
before; if they touch, one of them is open. -/
theorem RoundingInterval.Holds.significand_le (hscale : x.scale = y.scale) (hx : (of x).Holds v)
    (hy : (of y).Holds v) :
    y.significand ≤ x.significand := by
  by_contra hlt
  have hbelow := y.quartersBelow_le
  have hquarter : y.quarter = x.quarter := by rw [quarter, quarter, hscale]
  have hupper := hx.le.2
  have hlower := hy.le.1
  rw [(measures_of x).high] at hupper
  rw [(measures_of y).low, hquarter] at hlower
  have hends : 4 * y.significand - y.quartersBelow ≤ 4 * x.significand + 2 := by
    have h := le_of_mul_le_mul_right (hlower.trans hupper) x.quarter_pos
    exact_mod_cast h
  have htouch : 4 * y.significand - y.quartersBelow = 4 * x.significand + 2 := by omega
  have hnext : y.significand = x.significand + 1 := by omega
  -- Of two significands that follow each other one is odd.
  have heq : v = ((4 * x.significand + 2 : ℕ) : ℚ) * x.quarter := by
    rw [htouch] at hlower
    exact le_antisymm hupper hlower
  have hevenx := (measures_of x).closed.mp (hx.closed_of_eq (.inr (by rw [(measures_of x).high, heq])))
  have heveny :=
    (measures_of y).closed.mp (hy.closed_of_eq (.inl (by rw [(measures_of y).low, hquarter, htouch, heq])))
  omega

theorem RoundingInterval.Holds.scale_le (hx : (of x).Holds v) (hy : (of y).Holds v) : y.scale ≤ x.scale := by
  by_contra hlt
  obtain ⟨j, hj⟩ : ∃ j : ℕ, y.scale = x.scale + (j + 1 : ℕ) := by
    obtain ⟨j, hj⟩ := Int.eq_ofNat_of_zero_le (show 0 ≤ y.scale - x.scale - 1 by omega)
    exact ⟨j, by push_cast; omega⟩
  have hquarter : y.quarter = (2 ^ (j + 1) : ℕ) * x.quarter := by
    rw [quarter, quarter, hj, show x.scale + ((j + 1 : ℕ) : ℤ) - 2 =
      ((j + 1 : ℕ) : ℤ) + (x.scale - 2) by ring, zpow_add₀ (by norm_num), zpow_natCast]
    push_cast
    rfl
  have hpow : 2 ≤ 2 ^ (j + 1) := by
    rw [pow_succ]
    have := Nat.one_le_two_pow (n := j)
    omega
  have hxlt := x.significand_lt
  obtain ⟨hyge, hyexponent⟩ := y.significand_ge (by have := x.scale_ge; omega)
  have hupper := hx.le.2
  have hlower := hy.le.1
  rw [(measures_of x).high] at hupper
  rw [(measures_of y).low, hquarter, ← mul_assoc] at hlower
  have hends : (4 * y.significand - y.quartersBelow) * 2 ^ (j + 1) ≤ 4 * x.significand + 2 := by
    have h := le_of_mul_le_mul_right (hlower.trans hupper) x.quarter_pos
    exact_mod_cast h
  have hfirst : 2 ^ 54 - 1 ≤ 4 * y.significand - y.quartersBelow := by
    unfold quartersBelow
    simp only [Nat.pow_eq]
    split <;> omega
  have hproduct : (4 * y.significand - y.quartersBelow) * 2 ≤
      (4 * y.significand - y.quartersBelow) * 2 ^ (j + 1) :=
    Nat.mul_le_mul_left _ hpow
  have htouch : (4 * y.significand - y.quartersBelow) * 2 ^ (j + 1) = 4 * x.significand + 2 := by omega
  have hodd : x.significand = 2 ^ 53 - 1 := by omega
  have heq : v = ((4 * x.significand + 2 : ℕ) : ℚ) * x.quarter := by
    have hlower' : ((4 * x.significand + 2 : ℕ) : ℚ) * x.quarter ≤ v := by
      rw [← htouch]
      push_cast at hlower ⊢
      exact hlower
    exact le_antisymm hupper hlower'
  have heven := (measures_of x).closed.mp (hx.closed_of_eq (.inr (by rw [(measures_of x).high, heq])))
  omega

/-- The intervals of two numbers have something in common only if their magnitudes are the same. -/
theorem RoundingInterval.Holds.magnitude_eq (hx : (of x).Holds v) (hy : (of y).Holds v) :
    x.significand = y.significand ∧ x.scale = y.scale := by
  have hscale := le_antisymm (hy.scale_le hx) (hx.scale_le hy)
  exact ⟨le_antisymm (hy.significand_le hscale.symm hx) (hx.significand_le hscale hy), hscale⟩

end

/-- A number is determined by its sign and its magnitude. -/
theorem Binary64.eq_of_magnitude {x y : Binary64} (hsign : x.isNegative = y.isNegative)
    (hsignificand : x.significand = y.significand) (hscale : x.scale = y.scale) : x = y := by
  have hx : x.fractionBits < Nat.pow 2 52 := Nat.mod_lt _ (by decide)
  have hy : y.fractionBits < Nat.pow 2 52 := Nat.mod_lt _ (by decide)
  -- The lowest scale has two exponents, of which one is for small significands.
  obtain ⟨hexponent, hfraction⟩ : x.exponentBits = y.exponentBits ∧ x.fractionBits = y.fractionBits := by
    unfold scale at hscale
    unfold significand at hsignificand
    by_cases hxzero : x.exponentBits = 0 <;> by_cases hyzero : y.exponentBits = 0
    · rw [if_pos hxzero, if_pos hyzero] at hsignificand
      exact ⟨hxzero.trans hyzero.symm, hsignificand⟩
    · rw [if_pos hxzero, if_neg hyzero] at hsignificand
      omega
    · rw [if_neg hxzero, if_pos hyzero] at hsignificand
      omega
    · rw [if_neg hxzero, if_neg hyzero] at hsignificand
      omega
  have hbits : x.bits.toNat = y.bits.toNat := by
    have hxbits := x.bits.toNat_lt
    have hybits := y.bits.toNat_lt
    simp only [isNegative, decide_eq_decide, Nat.pow_eq] at hsign
    simp only [exponentBits, fractionBits, Nat.pow_eq] at hexponent hfraction
    omega
  exact congrArg Binary64.mk (UInt64.toNat_inj.mp hbits)

end ProviderSdk.Decimal
