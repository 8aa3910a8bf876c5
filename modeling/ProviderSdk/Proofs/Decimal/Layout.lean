import ProviderSdk.Decimal.Layout
import ProviderSdk.Decimal.Reading
import ProviderSdk.Proofs.Decimal.Shortest

/-!
# Written numbers

Whatever the layout, a written number reads as the decimal that was laid out. With what the shortest
decimal determines, two numbers that are written alike are the same.
-/

namespace ProviderSdk.Decimal

theorem digitsValue_append (n : Nat) (cs ds : List Char) :
    digitsValue n (cs ++ ds) = digitsValue (digitsValue n cs) ds := List.foldl_append

theorem digitsValue_eq_ofDigitChars (n : Nat) (cs : List Char) :
    digitsValue n cs = Nat.ofDigitChars 10 cs n := by
  rw [Nat.ofDigitChars_eq_foldl, digitsValue]
  congr 1
  funext n c
  rw [Nat.mul_comm]
  rfl

theorem digitsValue_digitsOf (n : Nat) : digitsValue 0 (digitsOf n) = n := by
  rw [digitsValue_eq_ofDigitChars]
  exact Nat.ofDigitChars_ten_toDigits

theorem digitsValue_zeros (n count : Nat) : digitsValue n (zeros count) = n * 10 ^ count := by
  rw [digitsValue_eq_ofDigitChars, zeros, Nat.ofDigitChars_replicate_zero, Nat.mul_comm]

theorem isDigit_of_mem_digitsOf {n : Nat} {c : Char} (h : c ∈ digitsOf n) : c.isDigit = true :=
  Nat.isDigit_of_mem_toDigits (by decide) (by decide) h

theorem isDigit_of_mem_zeros {count : Nat} {c : Char} (h : c ∈ zeros count) : c.isDigit = true := by
  rw [List.eq_of_mem_replicate h]
  rfl

theorem digitsOf_ne_nil (n : Nat) : digitsOf n ≠ [] := Nat.toDigits_ne_nil

section

variable {whole fraction rest : List Char}

theorem takeWhile_dropWhile_append {p : Char → Bool} (hwhole : ∀ c ∈ whole, p c = true)
    (hrest : ∀ c ∈ rest.head?, p c = false) :
    (whole ++ rest).takeWhile p = whole ∧ (whole ++ rest).dropWhile p = rest := by
  rw [List.takeWhile_append_of_pos hwhole, List.dropWhile_append_of_pos hwhole]
  cases rest with
  | nil => simp
  | cons c rest =>
    have hc : p c = false := hrest c rfl
    simp [hc]

/-- At the end of a text neither digits nor a point go on. -/
theorem mem_end : ∀ c ∈ ([] : List Char).head?, c.isDigit = false ∧ c ≠ '.' := by
  rintro c ⟨⟩

/-- A numeral without a point. -/
theorem unsigned?_whole (hne : whole ≠ []) (hwhole : ∀ c ∈ whole, c.isDigit = true)
    (hrest : ∀ c ∈ rest.head?, c.isDigit = false ∧ c ≠ '.') :
    unsigned? (whole ++ rest) = (exponent? rest).map (fun e => (digitsValue 0 whole, e)) := by
  obtain ⟨htake, hdrop⟩ := takeWhile_dropWhile_append hwhole (fun c hc => (hrest c hc).1)
  unfold unsigned?
  simp only [htake, hdrop]
  split
  · exact absurd rfl (hrest '.' rfl).2
  · simp [hne]

theorem unsigned?_fraction (hne : whole ≠ []) (hwhole : ∀ c ∈ whole, c.isDigit = true)
    (hfraction : ∀ c ∈ fraction, c.isDigit = true) (hrest : ∀ c ∈ rest.head?, c.isDigit = false) :
    unsigned? (whole ++ '.' :: (fraction ++ rest)) =
      (exponent? rest).map (fun e : Int => (digitsValue 0 (whole ++ fraction), e - fraction.length)) := by
  have hpoint : ∀ c ∈ ('.' :: (fraction ++ rest)).head?, c.isDigit = false := by
    rintro c ⟨⟩
    rfl
  obtain ⟨htake, hdrop⟩ := takeWhile_dropWhile_append hwhole hpoint
  obtain ⟨htake', hdrop'⟩ := takeWhile_dropWhile_append hfraction hrest
  unfold unsigned?
  simp only [htake, hdrop, htake', hdrop']
  simp [hne]

end

def exponentChars (plusOnExponent : Bool) (e : Int) : List Char :=
  if e < 0 then '-' :: digitsOf e.natAbs else (if plusOnExponent then ['+'] else []) ++ digitsOf e.natAbs

theorem takeSign_digitsOf (n : Nat) : takeSign (digitsOf n) = (false, digitsOf n) := by
  have hdigit {c : Char} {rest : List Char} (h : digitsOf n = c :: rest) : c.isDigit = true :=
    isDigit_of_mem_digitsOf (h ▸ List.mem_cons_self)
  unfold takeSign
  split
  · next h => exact absurd (hdigit h) (by decide)
  · next h => exact absurd (hdigit h) (by decide)
  · rfl

theorem exponent?_exponentChars (plusOnExponent : Bool) (e : Int) :
    exponent? ('e' :: exponentChars plusOnExponent e) = some e := by
  have hdigits (n : Nat) : ((digitsOf n).isEmpty || !(digitsOf n).all Char.isDigit) = false := by
    have hall : (digitsOf n).all Char.isDigit = true :=
      List.all_eq_true.mpr (fun _ => isDigit_of_mem_digitsOf)
    simp [hall, digitsOf_ne_nil]
  have hsign : takeSign (exponentChars plusOnExponent e) = (decide (e < 0), digitsOf e.natAbs) := by
    unfold exponentChars
    split
    · next hneg => simp [takeSign, hneg]
    · next hpos =>
      cases plusOnExponent with
      | true => simp [takeSign, hpos]
      | false => simp [takeSign_digitsOf, hpos]
  simp only [exponent?, true_or, if_true, hsign, hdigits, digitsValue_digitsOf, Bool.false_eq_true, if_false,
    decide_eq_true_eq]
  split
  · congr 1
    omega
  · congr 1
    omega

/-- A text without a sign that begins with a digit and writes a number. -/
structure Writes (cs : List Char) (v : ℚ) : Prop where
  digit : ∃ c ∈ cs.head?, c.isDigit = true
  reads : ∃ d : Numeral, unsigned? cs = some (d.digits, d.exponent) ∧ d.value = v

theorem Writes.takeSign_eq {cs : List Char} {v : ℚ} (h : Writes cs v) (negative : Bool) :
    takeSign ((if negative then ['-'] else []) ++ cs) = (negative, cs) := by
  obtain ⟨c, hc, hdigit⟩ := h.digit
  cases negative with
  | true => rfl
  | false =>
    cases cs with
    | nil => cases hc
    | cons c' rest =>
      cases hc
      unfold takeSign
      simp only [Bool.false_eq_true, if_false, List.nil_append]
      split
      · next heq =>
        cases heq
        cases hdigit
      · next heq =>
        cases heq
        cases hdigit
      · rfl

theorem Writes.eq {cs : List Char} {v w : ℚ} (hv : Writes cs v) (hw : Writes cs w) : v = w := by
  obtain ⟨d, hd, rfl⟩ := hv.reads
  obtain ⟨d', hd', rfl⟩ := hw.reads
  rw [hd] at hd'
  obtain ⟨hdigits, hexponent⟩ := Prod.mk.inj (Option.some.inj hd')
  rw [Numeral.value, Numeral.value, hdigits, hexponent]

/-- A digit stands at the front of a text that begins with digits. -/
theorem exists_digit_head {ds rest : List Char} (hne : ds ≠ []) (hds : ∀ c ∈ ds, c.isDigit = true) :
    ∃ c ∈ (ds ++ rest).head?, c.isDigit = true := by
  cases ds with
  | nil => exact absurd rfl hne
  | cons c ds => exact ⟨c, rfl, hds c List.mem_cons_self⟩

theorem Numeral.value_shift (n k : Nat) (e : Int) :
    Numeral.value ⟨n * 10 ^ k, e - k⟩ = Numeral.value ⟨n, e⟩ := by
  rw [value, value, zpow_sub₀ (by norm_num), zpow_natCast]
  push_cast
  field_simp

theorem writes_positionalText_of_nonneg (wholeFraction : Bool) {d : Numeral} (hpos : 0 ≤ d.exponent) :
    Writes (positionalText wholeFraction d) d.value := by
  have hwhole : ∀ c ∈ digitsOf d.digits ++ zeros d.exponent.toNat, c.isDigit = true := by
    intro c hc
    rcases List.mem_append.mp hc with hc | hc
    · exact isDigit_of_mem_digitsOf hc
    · exact isDigit_of_mem_zeros hc
  have hne : digitsOf d.digits ++ zeros d.exponent.toNat ≠ [] :=
    fun h => digitsOf_ne_nil _ (List.append_eq_nil_iff.mp h).1
  have hdigits : digitsValue 0 (digitsOf d.digits ++ zeros d.exponent.toNat) =
      d.digits * 10 ^ d.exponent.toNat := by
    rw [digitsValue_append, digitsValue_digitsOf, digitsValue_zeros]
  have hvalue : Numeral.value ⟨d.digits * 10 ^ d.exponent.toNat, 0⟩ = d.value := by
    have hshift := Numeral.value_shift d.digits d.exponent.toNat d.exponent
    rwa [Int.toNat_of_nonneg hpos, Int.sub_self] at hshift
  unfold positionalText
  dsimp only
  rw [if_pos hpos]
  refine ⟨exists_digit_head hne hwhole, ?_⟩
  cases wholeFraction with
  | true =>
    have hzero : ∀ c ∈ ['0'], c.isDigit = true := by simp
    have hread := unsigned?_fraction hne hwhole hzero (fun c hc => (mem_end c hc).1)
    refine ⟨⟨d.digits * 10 ^ d.exponent.toNat * 10 ^ 1, 0 - (1 : ℕ)⟩, ?_, by rw [Numeral.value_shift, hvalue]⟩
    rw [if_pos rfl, show ".0".toList = '.' :: (['0'] ++ []) from rfl, hread, digitsValue_append, hdigits]
    rfl
  | false =>
    have hread := unsigned?_whole hne hwhole mem_end
    refine ⟨⟨d.digits * 10 ^ d.exponent.toNat, 0⟩, ?_, hvalue⟩
    rw [if_neg Bool.false_ne_true, hread, hdigits]
    rfl

theorem writes_positionalText_of_neg (wholeFraction : Bool) {d : Numeral} (hneg : d.exponent < 0) :
    Writes (positionalText wholeFraction d) d.value := by
  unfold positionalText
  dsimp only
  rw [if_neg (not_le.mpr hneg)]
  generalize hplaces : (-d.exponent).toNat = places
  split
  · next hlt =>
    have hwhole : ∀ c ∈ (digitsOf d.digits).take ((digitsOf d.digits).length - places), c.isDigit = true :=
      fun c hc => isDigit_of_mem_digitsOf (List.mem_of_mem_take hc)
    have hfraction : ∀ c ∈ (digitsOf d.digits).drop ((digitsOf d.digits).length - places), c.isDigit = true :=
      fun c hc => isDigit_of_mem_digitsOf (List.mem_of_mem_drop hc)
    have hne : (digitsOf d.digits).take ((digitsOf d.digits).length - places) ≠ [] := by
      apply List.ne_nil_of_length_pos
      rw [List.length_take]
      omega
    have hread := unsigned?_fraction hne hwhole hfraction (fun c hc => (mem_end c hc).1)
    refine ⟨exists_digit_head hne hwhole, d, ?_, rfl⟩
    rw [List.append_nil] at hread
    rw [hread, List.take_append_drop, digitsValue_digitsOf, List.length_drop]
    simp only [exponent?, Option.map_some, Option.some.injEq, Prod.mk.injEq, true_and]
    omega
  · next hge =>
    have hfraction : ∀ c ∈ zeros (places - (digitsOf d.digits).length) ++ digitsOf d.digits,
        c.isDigit = true := by
      intro c hc
      rcases List.mem_append.mp hc with hc | hc
      · exact isDigit_of_mem_zeros hc
      · exact isDigit_of_mem_digitsOf hc
    have hzero : ∀ c ∈ ['0'], c.isDigit = true := by simp
    have hread := unsigned?_fraction (List.cons_ne_nil '0' []) hzero hfraction (fun c hc => (mem_end c hc).1)
    refine ⟨⟨'0', rfl, rfl⟩, d, ?_, rfl⟩
    rw [List.append_nil] at hread
    rw [List.append_assoc, show "0.".toList = ['0'] ++ ['.'] from rfl, List.append_assoc]
    refine hread.trans ?_
    rw [digitsValue_append, digitsValue_append, show digitsValue 0 ['0'] = 0 from rfl,
      digitsValue_zeros, Nat.zero_mul, digitsValue_digitsOf, List.length_append, zeros, List.length_replicate]
    simp only [exponent?, Option.map_some, Option.some.injEq, Prod.mk.injEq, true_and]
    omega

theorem writes_positionalText (wholeFraction : Bool) (d : Numeral) :
    Writes (positionalText wholeFraction d) d.value := by
  rcases le_or_gt 0 d.exponent with hpos | hneg
  · exact writes_positionalText_of_nonneg wholeFraction hpos
  · exact writes_positionalText_of_neg wholeFraction hneg

theorem writes_exponentText (plusOnExponent : Bool) (d : Numeral) :
    Writes (exponentText plusOnExponent d) d.value := by
  have htake : ∀ c ∈ (digitsOf d.digits).take 1, c.isDigit = true :=
    fun c hc => isDigit_of_mem_digitsOf (List.mem_of_mem_take hc)
  have hne : (digitsOf d.digits).take 1 ≠ [] := by simp [digitsOf_ne_nil]
  have hall := List.take_append_drop 1 (digitsOf d.digits)
  have hlength := List.length_pos_of_ne_nil (digitsOf_ne_nil d.digits)
  generalize he : d.exponent + ((digitsOf d.digits).length : Int) - 1 = e
  have hmark : ∀ c ∈ ('e' :: exponentChars plusOnExponent e).head?, c.isDigit = false ∧ c ≠ '.' := by
    rintro c ⟨⟩
    decide
  unfold exponentText
  dsimp only
  rw [he, List.append_assoc]
  refine ⟨exists_digit_head hne htake, d, ?_, rfl⟩
  split
  · next hdrop =>
    have hread := unsigned?_whole hne htake hmark
    have hone : (digitsOf d.digits).length = 1 := by
      have := List.drop_eq_nil_iff.mp hdrop
      omega
    rw [hdrop, List.append_nil] at hall
    refine hread.trans ?_
    rw [exponent?_exponentChars, hall, digitsValue_digitsOf]
    simp only [Option.map_some, Option.some.injEq, Prod.mk.injEq, true_and]
    omega
  · have hfraction : ∀ c ∈ (digitsOf d.digits).drop 1, c.isDigit = true :=
      fun c hc => isDigit_of_mem_digitsOf (List.mem_of_mem_drop hc)
    have hread := unsigned?_fraction hne htake hfraction (fun c hc => (hmark c hc).1)
    refine hread.trans ?_
    rw [exponent?_exponentChars, hall, digitsValue_digitsOf, List.length_drop]
    simp only [Option.map_some, Option.some.injEq, Prod.mk.injEq, true_and]
    omega

namespace Layout

variable (l : Layout) {x y : Binary64}

def unsignedChars (x : Binary64) : List Char :=
  if x.isZero then positionalText l.wholeFraction ⟨0, 0⟩
  else if l.positional ((x.shortest l.tie).exponent + (digitCount (x.shortest l.tie).digits : Int) - 1) then
    positionalText l.wholeFraction (x.shortest l.tie)
  else exponentText l.plusOnExponent (x.shortest l.tie)

theorem chars_eq (x : Binary64) : l.chars x = (if x.isNegative then ['-'] else []) ++ l.unsignedChars x := by
  unfold chars unsignedChars
  cases x.isZero <;> rfl

theorem writes_unsignedChars (x : Binary64) :
    Writes (l.unsignedChars x) (if x.isZero then 0 else (x.shortest l.tie).value) := by
  unfold unsignedChars
  split
  · have h := writes_positionalText l.wholeFraction ⟨0, 0⟩
    rwa [show Numeral.value ⟨0, 0⟩ = 0 by simp [Numeral.value]] at h
  · split
    · exact writes_positionalText _ _
    · exact writes_exponentText _ _

/-- Numbers that are written alike are the same. -/
theorem chars_injective : Function.Injective l.chars := by
  intro x y h
  have hx := l.writes_unsignedChars x
  have hy := l.writes_unsignedChars y
  have hsigned := congrArg takeSign h
  rw [chars_eq, chars_eq, hx.takeSign_eq, hy.takeSign_eq] at hsigned
  obtain ⟨hsign, htext⟩ := Prod.mk.inj hsigned
  rw [htext] at hx
  have hvalue := hx.eq hy
  cases hxzero : x.isZero with
  | true =>
    cases hyzero : y.isZero with
    | true =>
      obtain ⟨hxsignificand, hxscale⟩ := Binary64.magnitude_of_isZero hxzero
      obtain ⟨hysignificand, hyscale⟩ := Binary64.magnitude_of_isZero hyzero
      exact Binary64.eq_of_magnitude hsign (hxsignificand.trans hysignificand.symm)
        (hxscale.trans hyscale.symm)
    | false =>
      rw [hxzero, hyzero, if_pos rfl, if_neg Bool.false_ne_true] at hvalue
      exact absurd hvalue (Binary64.value_shortest_pos hyzero l.tie).ne
  | false =>
    cases hyzero : y.isZero with
    | true =>
      rw [hxzero, hyzero, if_pos rfl, if_neg Bool.false_ne_true] at hvalue
      exact absurd hvalue (Binary64.value_shortest_pos hxzero l.tie).ne'
    | false =>
      rw [hxzero, hyzero, if_neg Bool.false_ne_true, if_neg Bool.false_ne_true] at hvalue
      have hholds := Binary64.holds_shortest hxzero l.tie
      rw [hvalue] at hholds
      obtain ⟨hsignificand, hscale⟩ := hholds.magnitude_eq (Binary64.holds_shortest hyzero l.tie)
      exact Binary64.eq_of_magnitude hsign hsignificand hscale

end Layout

def IsNumeric (c : Char) : Prop := c.isDigit = true ∨ c ∈ ['-', '+', '.', 'e']

instance : DecidablePred IsNumeric :=
  fun c => inferInstanceAs (Decidable (c.isDigit = true ∨ c ∈ ['-', '+', '.', 'e']))

theorem isNumeric_of_mem_digitsOf {n : Nat} {c : Char} (h : c ∈ digitsOf n) : IsNumeric c :=
  .inl (isDigit_of_mem_digitsOf h)

theorem isNumeric_of_mem_zeros {count : Nat} {c : Char} (h : c ∈ zeros count) : IsNumeric c :=
  .inl (isDigit_of_mem_zeros h)

theorem isNumeric_of_mem_positionalText {wholeFraction : Bool} {d : Numeral} {c : Char}
    (h : c ∈ positionalText wholeFraction d) : IsNumeric c := by
  have hpoint {word : List Char} (hword : word ⊆ ['.', '0']) (hc : c ∈ word) : IsNumeric c := by
    rcases List.mem_cons.mp (hword hc) with rfl | hc
    · exact .inr (by simp)
    · rw [List.mem_singleton.mp hc]
      exact .inl rfl
  unfold positionalText at h
  dsimp only at h
  split at h
  · rcases List.mem_append.mp h with h | h
    · rcases List.mem_append.mp h with h | h
      · exact isNumeric_of_mem_digitsOf h
      · exact isNumeric_of_mem_zeros h
    · exact hpoint (by cases wholeFraction <;> simp) h
  · split at h
    · rcases List.mem_append.mp h with h | h
      · exact isNumeric_of_mem_digitsOf (List.mem_of_mem_take h)
      · rcases List.mem_cons.mp h with rfl | h
        · exact .inr (by simp)
        · exact isNumeric_of_mem_digitsOf (List.mem_of_mem_drop h)
    · rcases List.mem_append.mp h with h | h
      · rcases List.mem_append.mp h with h | h
        · exact hpoint (by simp) h
        · exact isNumeric_of_mem_zeros h
      · exact isNumeric_of_mem_digitsOf h

theorem isNumeric_of_mem_exponentChars {plusOnExponent : Bool} {e : Int} {c : Char}
    (h : c ∈ exponentChars plusOnExponent e) : IsNumeric c := by
  unfold exponentChars at h
  split at h
  · rcases List.mem_cons.mp h with rfl | h
    · exact .inr (by simp)
    · exact isNumeric_of_mem_digitsOf h
  · rcases List.mem_append.mp h with h | h
    · cases plusOnExponent with
      | true =>
        rw [List.mem_singleton.mp h]
        exact .inr (by simp)
      | false => cases h
    · exact isNumeric_of_mem_digitsOf h

theorem isNumeric_of_mem_exponentText {plusOnExponent : Bool} {d : Numeral} {c : Char}
    (h : c ∈ exponentText plusOnExponent d) : IsNumeric c := by
  unfold exponentText at h
  dsimp only at h
  rcases List.mem_append.mp h with h | h
  · rcases List.mem_append.mp h with h | h
    · exact isNumeric_of_mem_digitsOf (List.mem_of_mem_take h)
    · split at h
      · cases h
      · rcases List.mem_cons.mp h with rfl | h
        · exact .inr (by simp)
        · exact isNumeric_of_mem_digitsOf (List.mem_of_mem_drop h)
  · rcases List.mem_cons.mp h with rfl | h
    · exact .inr (by simp)
    · exact isNumeric_of_mem_exponentChars h

namespace Layout

variable {l : Layout} {x : Binary64} {c : Char}

theorem isNumeric_of_mem_chars (h : c ∈ l.chars x) : IsNumeric c := by
  rw [chars_eq] at h
  rcases List.mem_append.mp h with h | h
  · split at h
    · rw [List.mem_singleton.mp h]
      exact .inr (by simp)
    · cases h
  · unfold unsignedChars at h
    split at h
    · exact isNumeric_of_mem_positionalText h
    · split at h
      · exact isNumeric_of_mem_positionalText h
      · exact isNumeric_of_mem_exponentText h

/-- A number that is written with a fraction, or else with an exponent, is no sequence of digits. -/
theorem exists_mark (hl : l.wholeFraction = true) (x : Binary64) : '.' ∈ l.chars x ∨ 'e' ∈ l.chars x := by
  have hpoint (d : Numeral) : '.' ∈ positionalText l.wholeFraction d := by
    rw [hl]
    unfold positionalText
    dsimp only
    split
    · simp
    · split <;> simp
  have hunsigned : '.' ∈ l.unsignedChars x ∨ 'e' ∈ l.unsignedChars x := by
    unfold unsignedChars
    split
    · exact .inl (hpoint _)
    · split
      · exact .inl (hpoint _)
      · exact .inr (by simp [exponentText])
  rw [chars_eq]
  exact hunsigned.imp (List.mem_append_right _) (List.mem_append_right _)

end Layout

end ProviderSdk.Decimal
