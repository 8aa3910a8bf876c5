import Mathlib.Data.Rat.Floor
import ProviderSdk.Compile.Resolution
import ProviderSdk.Proofs.Values.Coercion

/-!
# Integers of values

What becomes of the numbers of JSON texts in fields that are not of kind float. Integers of 64 bits
with a sign are kept; larger ones become the greatest of these, and floating point becomes the
integer next to it in the direction of zero, held within these. The literals of defaults are the
same integers.

The larger integers pass through a floating-point number, which rounds them to 53 bits, but never to
a number below their highest bit.
-/

namespace ProviderSdk

namespace Decimal

/-- The integer next to a rational number in the direction of zero. -/
def towardZero (v : ℚ) : ℤ := if 0 ≤ v then ⌊v⌋ else ⌈v⌉

theorem towardZero_neg (v : ℚ) : towardZero (-v) = -towardZero v := by
  rcases lt_trichotomy v 0 with hneg | rfl | hpos
  · rw [towardZero, towardZero, if_pos (neg_nonneg.mpr hneg.le), if_neg (not_le.mpr hneg), Int.floor_neg]
  · simp [towardZero]
  · rw [towardZero, towardZero, if_neg (by simpa using hpos), if_pos hpos.le, Int.ceil_neg]

theorem towardZero_div (num den : Nat) : towardZero ((num : ℚ) / den) = ((num / den : Nat) : ℤ) := by
  rw [towardZero, if_pos (by positivity)]
  exact Rat.floor_natCast_div_natCast num den

namespace Binary64

def value (x : Binary64) : ℚ := (if x.isNegative then -1 else 1) * (x.significand * (2 : ℚ) ^ x.scale)

theorem magnitude_eq (x : Binary64) :
    (x.magnitude.1 : ℚ) / x.magnitude.2 = x.significand * (2 : ℚ) ^ x.scale := by
  rw [magnitude]
  split
  · next h =>
    obtain ⟨n, hn⟩ := Int.eq_ofNat_of_zero_le h
    simp [hn]
  · next h =>
    obtain ⟨n, hn⟩ := Int.eq_ofNat_of_zero_le (show 0 ≤ -x.scale by omega)
    have hscale : x.scale = -(n : ℤ) := by omega
    simp [hscale, div_eq_mul_inv]

/-- Truncation gives the integer next to the value in the direction of zero. -/
theorem truncated_eq (x : Binary64) : x.truncated = towardZero x.value := by
  change (if x.isNegative then -((x.magnitude.1 / x.magnitude.2 : Nat) : ℤ)
    else (x.magnitude.1 / x.magnitude.2 : Nat)) = _
  rw [value, ← magnitude_eq]
  split
  · rw [neg_one_mul, towardZero_neg, towardZero_div]
  · rw [one_mul, towardZero_div]

variable {exponent fraction : Nat}

theorem toNat_bits_ofFields (hexponent : exponent < 2 ^ 11) (hfraction : fraction < 2 ^ 52) :
    (ofFields false exponent fraction).bits.toNat = exponent * 2 ^ 52 + fraction := by
  simp only [ofFields, Bool.false_eq_true, if_false, UInt64.toNat_ofNat', Nat.pow_eq]
  omega

theorem exponentBits_ofFields (hexponent : exponent < 2 ^ 11) (hfraction : fraction < 2 ^ 52) :
    (ofFields false exponent fraction).exponentBits = exponent := by
  rw [exponentBits, toNat_bits_ofFields hexponent hfraction]
  simp only [Nat.pow_eq]
  omega

theorem fractionBits_ofFields (hexponent : exponent < 2 ^ 11) (hfraction : fraction < 2 ^ 52) :
    (ofFields false exponent fraction).fractionBits = fraction := by
  rw [fractionBits, toNat_bits_ofFields hexponent hfraction]
  simp only [Nat.pow_eq]
  omega

theorem isNegative_ofFields (hexponent : exponent < 2 ^ 11) (hfraction : fraction < 2 ^ 52) :
    (ofFields false exponent fraction).isNegative = false := by
  rw [isNegative, toNat_bits_ofFields hexponent hfraction]
  exact decide_eq_false (by simp only [Nat.pow_eq]; omega)

theorem roundDiv_mem {num den : Nat} : num / den ≤ roundDiv num den ∧ roundDiv num den ≤ num / den + 1 := by
  unfold roundDiv
  dsimp only
  split_ifs <;> omega

/-- A number of 53 bits above the point is finite, and truncation keeps it. -/
theorem truncated_ofFields {m e : Nat} (hlow : 2 ^ 52 ≤ m) (hhigh : m < 2 ^ 53) (he : e ≤ 971) :
    (ofFields false (e + 1075) (m - 2 ^ 52)).isFinite = true ∧
      (ofFields false (e + 1075) (m - 2 ^ 52)).truncated = ((m * 2 ^ e : Nat) : ℤ) := by
  have hexponent : e + 1075 < 2 ^ 11 := by omega
  have hfraction : m - 2 ^ 52 < 2 ^ 52 := by omega
  have hscale : (ofFields false (e + 1075) (m - 2 ^ 52)).scale = e := by
    rw [scale, exponentBits_ofFields hexponent hfraction]
    omega
  have hsignificand : (ofFields false (e + 1075) (m - 2 ^ 52)).significand = m := by
    rw [significand, exponentBits_ofFields hexponent hfraction,
      fractionBits_ofFields hexponent hfraction, Nat.pow_eq]
    split <;> omega
  constructor
  · rw [isFinite, exponentBits_ofFields hexponent hfraction]
    simp only [bne_iff_ne]
    omega
  · rw [truncated, magnitude, hscale, hsignificand, isNegative_ofFields hexponent hfraction]
    simp

/-- Rounding up may give one bit more, which is a zero and left out. -/
theorem truncated_ofSignificand {m e : Nat} (hlow : 2 ^ 52 ≤ m) (hhigh : m ≤ 2 ^ 53) (he : e ≤ 970) :
    (ofSignificand false m e).isFinite = true ∧
      (ofSignificand false m e).truncated = ((m * 2 ^ e : Nat) : ℤ) := by
  have hlow' : ¬ m < Nat.pow 2 52 := Nat.not_lt.mpr hlow
  rcases hhigh.lt_or_eq with hlt | rfl
  · have hfields : ofSignificand false m e = ofFields false (e + 1075) (m - 2 ^ 52) := by
      rw [ofSignificand, if_neg hlow', if_pos (show m < Nat.pow 2 53 from hlt)]
      exact if_neg (by omega)
    rw [hfields]
    exact truncated_ofFields hlow hlt (by omega)
  · have hfields : ofSignificand false (2 ^ 53) e = ofFields false (e + 1 + 1075) (2 ^ 52 - 2 ^ 52) := by
      rw [ofSignificand, if_neg hlow', if_neg (show ¬ 2 ^ 53 < Nat.pow 2 53 from Nat.lt_irrefl _)]
      exact if_neg (by omega)
    rw [hfields]
    obtain ⟨hfinite, htruncated⟩ := @truncated_ofFields (2 ^ 52) (e + 1) (by decide) (by decide) (by omega)
    refine ⟨hfinite, htruncated.trans ?_⟩
    rw [Nat.pow_succ 2 e, Nat.mul_comm (2 ^ e), ← Nat.mul_assoc, ← Nat.pow_succ]

/-- An integer of 64 bits without a sign that has the highest bit set is rounded to a number that is
not below that bit. -/
theorem le_truncated_ofInt {n : Int} (hlow : 2 ^ 63 ≤ n) (hhigh : n < 2 ^ 64) :
    (ofInt n).isFinite = true ∧ 2 ^ 63 ≤ (ofInt n).truncated := by
  obtain ⟨m, hm⟩ := Int.eq_ofNat_of_zero_le (show 0 ≤ n by omega)
  have hm' : n.natAbs = m := by omega
  have hlog : m.log2 = 63 := (Nat.log2_eq_iff (by omega)).mpr (by omega)
  have hdown : scaledDown m 1 11 = (m, 2 ^ 11) := rfl
  have hunit : unitExponent m 1 = 11 := by
    have he : ((63 : Nat) : Int) - ((1 : Nat).log2 : Int) - 52 = 11 := by decide
    have hquotient : ¬ m / 2 ^ 11 < Nat.pow 2 52 := by
      rw [Nat.pow_eq]
      omega
    simp only [unitExponent, hlog, he, hdown, if_neg hquotient]
    rfl
  have hofInt : ofInt n = ofSignificand false (roundDiv m (2 ^ 11)) (11 : Nat) := by
    have hsign : decide (n < 0) = false := decide_eq_false (by omega)
    rw [ofInt, hsign, hm', ofQuotient, if_neg (by omega)]
    simp only [hunit, hdown]
    rfl
  obtain ⟨hfloor, hceil⟩ := @roundDiv_mem m (2 ^ 11)
  obtain ⟨hfinite, htruncated⟩ :=
    @truncated_ofSignificand (roundDiv m (2 ^ 11)) 11 (by omega) (by omega) (by decide)
  rw [hofInt, htruncated]
  exact ⟨hfinite, by omega⟩

end Binary64

end Decimal

open Decimal (Binary64 towardZero)

/-- The numbers that JSON texts have: integers of 64 bits, with or without a sign, and finite
floating point. -/
def Number.Carried : Number → Prop
  | .int n => int64Min ≤ n ∧ n < 2 ^ 64
  | .float x => x.isFinite = true

variable {kind : ValueKind}

theorem Decimal.Binary64.clampedInt_of_isFinite {x : Binary64} (hx : x.isFinite = true) (lo hi : Int) :
    x.clampedInt lo hi = max lo (min hi (towardZero x.value)) := by
  have hnumber : x.isNaN = false := by
    rw [Binary64.isNaN, Bool.and_eq_false_iff]
    exact .inl (by simpa [Binary64.isFinite] using hx)
  rw [Binary64.clampedInt, hnumber, hx, x.truncated_eq]
  rfl

theorem Number.coerce_int_of_le (hk : kind.isFloat = false) {n : Int} (hlow : int64Min ≤ n)
    (hhigh : n ≤ int64Max) : (Number.int n).coerce kind = .int n :=
  Number.Fits.coerce_eq ⟨hk, hlow, hhigh⟩

theorem Number.coerce_int_of_gt (hk : kind.isFloat = false) {n : Int} (hlow : int64Max < n)
    (hhigh : n < 2 ^ 64) : (Number.int n).coerce kind = .int int64Max := by
  have hmax : int64Max = 2 ^ 63 - 1 := rfl
  have hmin : int64Min = -2 ^ 63 := rfl
  obtain ⟨hfinite, hle⟩ := Decimal.Binary64.le_truncated_ofInt (show 2 ^ 63 ≤ n by omega) hhigh
  rw [Binary64.truncated_eq] at hle
  have hclamped : (Binary64.ofInt n).clampedInt int64Min int64Max = int64Max := by
    rw [Decimal.Binary64.clampedInt_of_isFinite hfinite]
    omega
  simp [Number.coerce, hk, hclamped, not_le.mpr hlow]

theorem Number.coerce_float (hk : kind.isFloat = false) {x : Binary64} (hx : x.isFinite = true) :
    (Number.float x).coerce kind = .int (max int64Min (min int64Max (towardZero x.value))) := by
  simp [Number.coerce, hk, Decimal.Binary64.clampedInt_of_isFinite hx]

theorem DefaultOverride.literal_eq {d : DefaultOverride} {n : Number} {k : Int} (hd : d.value = some (.num n))
    (hn : n.coerce kind = .int k) : (d.toDefaultValue kind).literal = some (.int k) := by
  have hk : int64Min ≤ k ∧ k ≤ int64Max := by
    have hfits := n.coerce_fits kind
    rw [hn] at hfits
    exact hfits.2
  simp [toDefaultValue, hd, coerceNumber, hn, literalOf?, hk]

/-- Numbers that have been coerced stay as they are. In fields that are not of kind float, integers
of 64 bits with a sign are kept, and larger ones become the greatest of them; the literals of
defaults are these integers too. Floating point becomes the integer next to it in the direction of
zero, held within 64 bits. -/
theorem coerceNumber_exact (kind : ValueKind) (n : Number) (hn : n.Carried) :
    coerceNumber kind (coerceNumber kind (.num n)) = coerceNumber kind (.num n) ∧
    (kind.isFloat = false →
      (∀ k, n = .int k → k ≤ int64Max →
        coerceNumber kind (.num n) = .num n ∧
          ∀ d : DefaultOverride, d.value = some (.num n) → (d.toDefaultValue kind).literal = some (.int k)) ∧
      (∀ k, n = .int k → int64Max < k →
        coerceNumber kind (.num n) = .num (.int int64Max) ∧
          ∀ d : DefaultOverride, d.value = some (.num n) →
            (d.toDefaultValue kind).literal = some (.int int64Max)) ∧
      ∀ x, n = .float x →
        coerceNumber kind (.num n) = .num (.int (max int64Min (min int64Max (towardZero x.value))))) := by
  refine ⟨coerceNumber_coerceNumber kind (.num n), fun hk => ⟨?_, ?_, ?_⟩⟩
  · rintro k rfl hle
    have hcoerce := Number.coerce_int_of_le hk hn.1 hle
    exact ⟨congrArg Json.num hcoerce, fun d hd => DefaultOverride.literal_eq hd hcoerce⟩
  · rintro k rfl hgt
    have hcoerce := Number.coerce_int_of_gt hk hgt hn.2
    exact ⟨congrArg Json.num hcoerce, fun d hd => DefaultOverride.literal_eq hd hcoerce⟩
  · rintro x rfl
    exact congrArg Json.num (Number.coerce_float hk hn)

/-- Beyond 53 bits an integer is kept where the nearest floating point is another number. -/
theorem coerceNumber_beyond_significands :
    (Number.int (2 ^ 53 + 1)).Carried ∧ (Binary64.ofInt (2 ^ 53 + 1)).truncated = 2 ^ 53 ∧
      coerceNumber (.scalar .int) (.num (.int (2 ^ 53 + 1))) = .num (.int (2 ^ 53 + 1)) := by
  have hn : (Number.int (2 ^ 53 + 1)).Carried := ⟨by decide, by decide⟩
  exact ⟨hn, by decide +kernel, ((coerceNumber_exact (.scalar .int) _ hn).2 rfl).1 _ rfl (by decide) |>.1⟩

/-- The least integer that needs 64 bits without a sign becomes the one below it, and so does the
literal of a default. -/
theorem coerceNumber_changes_integer :
    (Number.int (2 ^ 63)).Carried ∧
      coerceNumber (.scalar .int) (.num (.int (2 ^ 63))) = .num (.int (2 ^ 63 - 1)) ∧
      (DefaultOverride.toDefaultValue { value := some (.num (.int (2 ^ 63))) } (.scalar .int)).literal =
        some (.int (2 ^ 63 - 1)) := by
  have hcoerce : Number.coerce (.scalar .int) (.int (2 ^ 63)) = .int (2 ^ 63 - 1) := by decide +kernel
  exact ⟨⟨by decide, by decide⟩, congrArg Json.num hcoerce, DefaultOverride.literal_eq rfl hcoerce⟩

end ProviderSdk
