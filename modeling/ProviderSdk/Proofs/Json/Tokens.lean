import Mathlib.Data.List.TakeWhile
import ProviderSdk.Proofs.Json.Layout
import ProviderSdk.Proofs.Json.Reading

/-!
# Where tokens end

What a reader that succeeds leaves of the characters ahead. A word leaves what follows its letters,
a string what follows its quote, and a number what follows the characters of its numeral, whether
they are read or skipped.
-/

namespace ProviderSdk.Json.Reader

variable {α β : Type}

def Leaves (r : Reader α) (cs : List Char) (Q : α → List Char → Prop) : Prop :=
  ∀ c a c', c.chars = cs → r c = .ok (a, c') → Q a c'.chars

section

variable {r : Reader α} {cs rest : List Char} {P : α → List Char → Prop} {Q : β → List Char → Prop}

theorem Leaves.imp {P' : α → List Char → Prop} (h : Leaves r cs P) (himp : ∀ a rest, P a rest → P' a rest) :
    Leaves r cs P' :=
  fun c a c' hc hr => himp a c'.chars (h c a c' hc hr)

theorem leaves_pure {a : α} (h : P a cs) : Leaves (pure a) cs P := by
  intro c a' c' hc hr
  cases hr
  rw [hc]
  exact h

/-- A reader that never gives anything leaves whatever is asked for. -/
theorem leaves_of_gives (h : Gives (fun _ => False) r) : Leaves r cs P :=
  fun c a c' _ hr => (h c a c' hr).elim

theorem leaves_bind_of_gives {f : α → Reader β} (h : Gives (fun _ => False) r) : Leaves (r >>= f) cs Q :=
  leaves_of_gives (h.bind (fun _ => False.elim))

theorem leaves_mismatch : Leaves mismatch cs P := leaves_of_gives gives_mismatch

theorem leaves_refuseHere : Leaves refuseHere cs P := leaves_of_gives gives_refuseHere

theorem leaves_refuseAhead : Leaves refuseAhead cs P := leaves_of_gives gives_refuseAhead

theorem leaves_refuseValue : Leaves refuseValue cs P := leaves_of_gives gives_refuseValue

theorem Leaves.bind {f : α → Reader β} (hr : Leaves r cs P) (hf : ∀ a rest, P a rest → Leaves (f a) rest Q) :
    Leaves (r >>= f) cs Q := by
  intro c b c' hc h
  obtain ⟨⟨a, between⟩, ha, h⟩ := bind_eq_ok.mp h
  exact hf a between.chars (hr c a between hc ha) between b c' rfl h

theorem Leaves.image {f : α → β} (hr : Leaves r cs P) (hf : ∀ a rest, P a rest → Q (f a) rest) :
    Leaves (f <$> r) cs Q := by
  rw [map_eq_pure_bind]
  exact hr.bind (fun a rest ha => leaves_pure (hf a rest ha))

theorem Leaves.discard (hr : Leaves r cs P) : Leaves (discard r) cs (fun _ rest => ∃ a, P a rest) :=
  hr.image (fun a _ ha => ⟨a, ha⟩)

theorem leaves_peek? {f : Option Char → Reader β} (h : ∀ ahead, cs.head? = ahead → Leaves (f ahead) cs Q) :
    Leaves (peek? >>= f) cs Q := by
  intro c b c' hc hr
  exact h c.chars.head? (by rw [hc]) c b c' hc hr

/-- Looking for the next token reads over the separators before it. -/
theorem leaves_peekToken? {f : Option Char → Reader β}
    (h : ∀ gap rest ahead, IsGap gap → cs = gap ++ rest → rest.head? = ahead → Leaves (f ahead) rest Q) :
    Leaves (peekToken? >>= f) cs Q := by
  rintro c b c' rfl hr
  refine h (c.chars.takeWhile Cursor.isSeparator) c.skipSeparators.chars _ ?_ ?_ rfl
    c.skipSeparators b c' rfl hr
  · intro a ha
    exact List.mem_takeWhile_imp ha
  · exact List.takeWhile_append_dropWhile.symm

theorem leaves_advance {a : Char} {f : Unit → Reader β} (h : Leaves (f ()) rest Q) :
    Leaves (advance >>= f) (a :: rest) Q := by
  intro c b c' hc hr
  have hnext : c.next.chars = rest := by simp [Cursor.next, hc]
  exact h c.next b c' hnext hr

theorem leaves_last_advance {a : Char} {Q : Unit → List Char → Prop} (h : Q () rest) :
    Leaves advance (a :: rest) Q := by
  intro c b c' hc hr
  cases hr
  simpa [Cursor.next, hc] using h

theorem leaves_get {f : Cursor → Reader β} (h : ∀ c, Leaves (f c) cs Q) : Leaves (get >>= f) cs Q :=
  fun c b c' hc hr => h c c b c' hc hr

theorem leaves_enter {a : Char} {f : Unit → Reader β} (h : Leaves (f ()) rest Q) :
    Leaves (enter >>= f) (a :: rest) Q := by
  intro c b c' hc hr
  obtain ⟨⟨_, c₁⟩, henter, hr⟩ := bind_eq_ok.mp hr
  rw [enter] at henter
  split at henter
  · cases henter
  · cases henter
    exact h _ b c' (by simp [Cursor.next, hc]) hr

theorem leaves_leave {a : Char} {f : Unit → Reader β} (h : Leaves (f ()) rest Q) :
    Leaves (leave >>= f) (a :: rest) Q := by
  intro c b c' hc hr
  exact h _ b c' (by simp [Cursor.next, hc]) hr

end

theorem leaves_word (expected cs : List Char) :
    Leaves (word expected) cs (fun _ rest => cs = expected ++ rest) := by
  induction expected generalizing cs with
  | nil => exact leaves_pure rfl
  | cons a expected ih =>
    refine leaves_peek? (fun ahead hahead => ?_)
    split
    · exact leaves_refuseHere
    · obtain ⟨rest, rfl⟩ := List.head?_eq_some_iff.mp hahead
      split
      · next heq =>
        rw [heq]
        exact leaves_advance ((ih rest).imp (fun _ _ hrest => by rw [hrest, List.cons_append]))
      · exact leaves_refuseAhead

theorem isSpelling_cons_of_hexValue? {c : Char} {n : Nat} {rest : List Char} (h : Text.hexValue? c = some n)
    (hrest : IsSpelling rest) : IsSpelling (c :: rest) := by
  refine .plain ?_ ?_ hrest
  · rintro rfl
    cases h
  · rintro rfl
    cases h

theorem leaves_hexQuad (cs : List Char) :
    Leaves hexQuad cs (fun _ rest => ∃ quad, IsSpelling quad ∧ cs = quad ++ rest) := by
  rintro c n c' rfl hr
  rw [hexQuad] at hr
  split at hr
  · next a b d e rest hchars =>
    split at hr
    · next ha hb hd he =>
      cases hr
      refine ⟨[a, b, d, e], ?_, by simp [Cursor.next, hchars]⟩
      exact isSpelling_cons_of_hexValue? ha (isSpelling_cons_of_hexValue? hb (isSpelling_cons_of_hexValue? hd
        (isSpelling_cons_of_hexValue? he .nil)))
    · cases hr
  · cases hr

theorem leaves_pairPart (expected : Char) (cs : List Char) :
    Leaves (pairPart expected) cs (fun _ rest => cs = expected :: rest) := by
  refine leaves_peek? (fun ahead hahead => ?_)
  split
  · exact leaves_refuseHere
  · obtain ⟨rest, rfl⟩ := List.head?_eq_some_iff.mp hahead
    split
    · next heq =>
      rw [heq]
      exact leaves_last_advance rfl
    · exact leaves_refuseAhead

theorem leaves_unicodeEscape (cs : List Char) :
    Leaves unicodeEscape cs (fun _ rest => ∃ escaped, IsSpelling escaped ∧ cs = escaped ++ rest) := by
  refine (leaves_hexQuad cs).bind (fun n rest => ?_)
  rintro ⟨quad, hquad, rfl⟩
  split
  · exact leaves_refuseHere
  · split
    · refine (leaves_pairPart _ rest).bind (fun _ rest => ?_)
      rintro rfl
      refine (leaves_pairPart _ rest).bind (fun _ rest => ?_)
      rintro rfl
      refine (leaves_hexQuad rest).bind (fun m rest => ?_)
      rintro ⟨quad', hquad', rfl⟩
      split
      · exact leaves_pure ⟨quad ++ '\\' :: 'u' :: quad', hquad.append (.escape hquad'), by simp⟩
      · exact leaves_refuseHere
    · exact leaves_pure ⟨quad, hquad, rfl⟩

theorem leaves_escape (cs : List Char) :
    Leaves escape cs (fun _ rest => ∃ escaped, IsSpelling ('\\' :: escaped) ∧ cs = escaped ++ rest) := by
  refine leaves_peek? (fun ahead hahead => ?_)
  split
  · exact leaves_refuseHere
  · obtain ⟨rest, rfl⟩ := List.head?_eq_some_iff.mp hahead
    refine leaves_advance ((leaves_unicodeEscape rest).imp ?_)
    rintro _ rest' ⟨escaped, hescaped, rfl⟩
    exact ⟨'u' :: escaped, .escape hescaped, rfl⟩
  · next a _ =>
    obtain ⟨rest, rfl⟩ := List.head?_eq_some_iff.mp hahead
    split
    · exact leaves_advance (leaves_pure ⟨[a], .escape .nil, rfl⟩)
    · exact leaves_refuseAhead

/-- A string ends with its quote. It is what is spelt if nothing is escaped. -/
theorem leaves_stringTail (fuel : Nat) (read cs : List Char) :
    Leaves (stringTail fuel read) cs (fun s rest =>
      ∃ spelling, IsSpelling spelling ∧ cs = spelling ++ '"' :: rest ∧
      ('\\' ∉ spelling → s = String.ofList (read.reverse ++ spelling))) := by
  induction fuel generalizing read cs with
  | zero => exact leaves_refuseHere
  | succ fuel ih =>
    refine leaves_peek? (fun ahead hahead => ?_)
    split
    · exact leaves_refuseHere
    · obtain ⟨rest, rfl⟩ := List.head?_eq_some_iff.mp hahead
      exact leaves_advance (leaves_pure ⟨[], .nil, rfl, by simp⟩)
    · obtain ⟨rest, rfl⟩ := List.head?_eq_some_iff.mp hahead
      refine leaves_advance ((leaves_escape rest).bind (fun c rest' => ?_))
      rintro ⟨escaped, hescaped, rfl⟩
      refine (ih (c :: read) rest').imp ?_
      rintro s rest'' ⟨spelling, hspelling, rfl, -⟩
      exact ⟨'\\' :: escaped ++ spelling, hescaped.append hspelling, by simp, by simp⟩
    · next a hquote hbackslash =>
      obtain ⟨rest, rfl⟩ := List.head?_eq_some_iff.mp hahead
      split
      · exact leaves_refuseAhead
      · refine leaves_advance ((ih (a :: read) rest).imp ?_)
        rintro s rest' ⟨spelling, hspelling, rfl, hs⟩
        refine ⟨a :: spelling, .plain (by simpa using hquote) (by simpa using hbackslash) hspelling, rfl, ?_⟩
        intro hplain
        rw [hs (fun h => hplain (List.mem_cons_of_mem a h))]
        simp

theorem leaves_stringBody (cs : List Char) :
    Leaves stringBody cs (fun s rest => ∃ spelling, IsSpelling spelling ∧ cs = spelling ++ '"' :: rest ∧
      ('\\' ∉ spelling → s = String.ofList spelling)) :=
  leaves_get (fun c => leaves_stringTail c.size [] cs)

theorem leaves_skipStringTail (fuel : Nat) (cs : List Char) :
    Leaves (skipStringTail fuel) cs (fun _ rest =>
      ∃ spelling, IsSpelling spelling ∧ cs = spelling ++ '"' :: rest) := by
  induction fuel generalizing cs with
  | zero => exact leaves_refuseHere
  | succ fuel ih =>
    refine leaves_peek? (fun ahead hahead => ?_)
    split
    · exact leaves_refuseHere
    · obtain ⟨rest, rfl⟩ := List.head?_eq_some_iff.mp hahead
      exact leaves_last_advance ⟨[], .nil, rfl⟩
    · obtain ⟨rest, rfl⟩ := List.head?_eq_some_iff.mp hahead
      refine leaves_advance (leaves_peek? (fun ahead hahead => ?_))
      split
      · exact leaves_refuseHere
      · obtain ⟨rest, rfl⟩ := List.head?_eq_some_iff.mp hahead
        refine leaves_advance ((leaves_hexQuad rest).discard.bind (fun _ rest' => ?_))
        rintro ⟨_, quad, hquad, rfl⟩
        refine (ih rest').imp ?_
        rintro _ rest'' ⟨spelling, hspelling, rfl⟩
        exact ⟨'\\' :: 'u' :: (quad ++ spelling), .escape (hquad.append hspelling), by simp⟩
      · next a _ =>
        obtain ⟨rest, rfl⟩ := List.head?_eq_some_iff.mp hahead
        split
        · refine leaves_advance ((ih rest).imp ?_)
          rintro _ rest' ⟨spelling, hspelling, rfl⟩
          exact ⟨'\\' :: a :: spelling, .escape hspelling, rfl⟩
        · exact leaves_refuseAhead
    · next a hquote hbackslash =>
      obtain ⟨rest, rfl⟩ := List.head?_eq_some_iff.mp hahead
      split
      · exact leaves_refuseHere
      · refine leaves_advance ((ih rest).imp ?_)
        rintro _ rest' ⟨spelling, hspelling, rfl⟩
        exact ⟨a :: spelling, .plain (by simpa using hquote) (by simpa using hbackslash) hspelling, rfl⟩

theorem leaves_skipString (cs : List Char) :
    Leaves skipString cs (fun _ rest => ∃ spelling, IsSpelling spelling ∧ cs = spelling ++ '"' :: rest) :=
  leaves_get (fun c => leaves_skipStringTail c.size cs)

def Numerals (cs rest : List Char) : Prop :=
  ∃ numerals, (∀ c ∈ numerals, isNumeral c = true) ∧ cs = numerals ++ rest

theorem Numerals.refl (cs : List Char) : Numerals cs cs := ⟨[], by simp, rfl⟩

theorem Numerals.cons {c : Char} {cs rest : List Char} (hc : isNumeral c = true) (h : Numerals cs rest) :
    Numerals (c :: cs) rest := by
  obtain ⟨numerals, hnumerals, rfl⟩ := h
  exact ⟨c :: numerals, List.forall_mem_cons.mpr ⟨hc, hnumerals⟩, rfl⟩

theorem Numerals.trans {cs between rest : List Char} (h : Numerals cs between) (h' : Numerals between rest) :
    Numerals cs rest := by
  obtain ⟨numerals, hnumerals, rfl⟩ := h
  obtain ⟨more, hmore, rfl⟩ := h'
  refine ⟨numerals ++ more, fun c hc => ?_, (List.append_assoc ..).symm⟩
  rcases List.mem_append.mp hc with hc | hc
  · exact hnumerals c hc
  · exact hmore c hc

def Numeral (cs rest : List Char) : Prop :=
  ∃ c between, isNumeral c = true ∧ cs = c :: between ∧ Numerals between rest

theorem Numeral.trans {cs between rest : List Char} (h : Numeral cs between) (h' : Numerals between rest) :
    Numeral cs rest := by
  obtain ⟨c, first, hc, rfl, h⟩ := h
  exact ⟨c, first, hc, rfl, h.trans h'⟩

theorem Numeral.numerals {cs rest : List Char} (h : Numeral cs rest) : Numerals cs rest := by
  obtain ⟨c, first, hc, rfl, h⟩ := h
  exact .cons hc h

theorem isNumeral_of_isDigit {c : Char} (h : c.isDigit = true) : isNumeral c = true := by
  simp [isNumeral, h]

theorem isMark_of_isNumeral {c : Char} (h : isNumeral c = true) : isMark c = false := by
  by_contra hmark
  simp only [Bool.not_eq_false, isMark, Cursor.isSeparator, Bool.or_eq_true, beq_iff_eq] at hmark
  rcases hmark with (((((((((rfl | rfl) | rfl) | rfl) | rfl) | rfl) | rfl) | rfl) | rfl) | rfl) | rfl <;>
    cases h

def ReadsNumerals (r : Reader α) (cs : List Char) : Prop := Leaves r cs (fun _ rest => Numerals cs rest)

section

variable {r : Reader α} {cs rest : List Char} {c : Char}

theorem readsNumerals_pure (a : α) : ReadsNumerals (pure a) cs := leaves_pure (.refl cs)

theorem ReadsNumerals.bind {f : α → Reader β} (hr : ReadsNumerals r cs)
    (hf : ∀ a rest, ReadsNumerals (f a) rest) :
    ReadsNumerals (r >>= f) cs :=
  Leaves.bind hr (fun a rest h => (hf a rest).imp (fun _ _ h' => h.trans h'))

theorem readsNumerals_peek? {f : Option Char → Reader α}
    (h : ∀ ahead, cs.head? = ahead → ReadsNumerals (f ahead) cs) :
    ReadsNumerals (peek? >>= f) cs :=
  leaves_peek? h

theorem readsNumerals_advance {f : Unit → Reader α} (hc : isNumeral c = true)
    (h : ReadsNumerals (f ()) rest) :
    ReadsNumerals (advance >>= f) (c :: rest) :=
  leaves_advance (h.imp (fun _ _ h => .cons hc h))

theorem readsNumerals_get {f : Cursor → Reader α} (h : ∀ c, ReadsNumerals (f c) cs) :
    ReadsNumerals (get >>= f) cs :=
  leaves_get h

theorem readsNumerals_digit? (cs : List Char) : ReadsNumerals digit? cs := by
  refine readsNumerals_peek? (fun ahead hahead => ?_)
  split
  · obtain ⟨rest, rfl⟩ := List.head?_eq_some_iff.mp hahead
    split
    · next hdigit => exact readsNumerals_advance (isNumeral_of_isDigit hdigit) (readsNumerals_pure _)
    · exact readsNumerals_pure _
  · exact readsNumerals_pure _

theorem readsNumerals_countDigits (cs : List Char) : ReadsNumerals countDigits cs := by
  rintro c n c' rfl hr
  cases hr
  refine ⟨c.chars.takeWhile Char.isDigit, fun a ha => ?_, List.takeWhile_append_dropWhile.symm⟩
  exact isNumeral_of_isDigit (List.mem_takeWhile_imp ha)

theorem readsNumerals_discard_countDigits (cs : List Char) : ReadsNumerals (discard countDigits) cs :=
  (readsNumerals_countDigits cs).discard.imp (fun _ _ ⟨_, h⟩ => h)

theorem readsNumerals_floatOf (negative : Bool) (significand : Nat) (exponent : Int) (cs : List Char) :
    ReadsNumerals (floatOf negative significand exponent) cs := by
  unfold floatOf
  split
  · exact leaves_refuseHere
  · exact readsNumerals_pure _

theorem readsNumerals_exponentDigits (negative : Bool) (significand : Nat) (start : Int)
    (negativeExponent : Bool) (fuel exponent : Nat) (cs : List Char) :
    ReadsNumerals (exponentDigits negative significand start negativeExponent fuel exponent) cs := by
  induction fuel generalizing exponent cs with
  | zero => exact leaves_refuseHere
  | succ fuel ih =>
    refine (readsNumerals_digit? cs).bind (fun d rest => ?_)
    split
    · exact readsNumerals_floatOf _ _ _ rest
    · split
      · split
        · exact leaves_refuseHere
        · exact (readsNumerals_discard_countDigits rest).bind (fun _ _ => readsNumerals_pure _)
      · exact ih _ rest

def exponentMagnitude (negative : Bool) (significand : Nat) (start : Int) (negativeExponent : Bool) :
    Reader Number := do
  match ← peek? with
  | none => refuseHere
  | some c =>
    if c.isDigit then do
      advance
      exponentDigits negative significand start negativeExponent (← get).size (c.toNat - 48)
    else refuseAhead

theorem readsNumerals_exponentMagnitude (negative : Bool) (significand : Nat) (start : Int)
    (negativeExponent : Bool) (cs : List Char) :
    ReadsNumerals (exponentMagnitude negative significand start negativeExponent) cs := by
  refine readsNumerals_peek? (fun ahead hahead => ?_)
  split
  · exact leaves_refuseHere
  · obtain ⟨rest, rfl⟩ := List.head?_eq_some_iff.mp hahead
    split
    · next hdigit =>
      refine readsNumerals_advance (isNumeral_of_isDigit hdigit) (readsNumerals_get (fun c => ?_))
      exact readsNumerals_exponentDigits _ _ _ _ _ _ _
    · exact leaves_refuseAhead

theorem readsNumerals_exponentPart (negative : Bool) (significand : Nat) (start : Int)
    (hc : isNumeral c = true) :
    ReadsNumerals (exponentPart negative significand start) (c :: rest) := by
  have hdigits := readsNumerals_exponentMagnitude negative significand start
  refine readsNumerals_advance hc (readsNumerals_peek? (fun ahead hahead => ?_))
  dsimp only
  split
  · obtain ⟨rest, rfl⟩ := List.head?_eq_some_iff.mp hahead
    exact readsNumerals_advance rfl ((readsNumerals_pure false).bind hdigits)
  · obtain ⟨rest, rfl⟩ := List.head?_eq_some_iff.mp hahead
    exact readsNumerals_advance rfl ((readsNumerals_pure true).bind hdigits)
  · exact (readsNumerals_pure false).bind hdigits

theorem readsNumerals_afterDigits (negative : Bool) (significand : Nat) (exponent : Int) (cs : List Char) :
    ReadsNumerals (afterDigits negative significand exponent) cs := by
  refine readsNumerals_peek? (fun ahead hahead => ?_)
  split
  · obtain ⟨rest, rfl⟩ := List.head?_eq_some_iff.mp hahead
    exact readsNumerals_exponentPart _ _ _ rfl
  · obtain ⟨rest, rfl⟩ := List.head?_eq_some_iff.mp hahead
    exact readsNumerals_exponentPart _ _ _ rfl
  · exact readsNumerals_floatOf _ _ _ cs

theorem readsNumerals_fractionDigits (negative : Bool) (fuel significand places : Nat) (exponent : Int)
    (cs : List Char) : ReadsNumerals (fractionDigits negative fuel significand places exponent) cs := by
  induction fuel generalizing significand places cs with
  | zero => exact leaves_refuseHere
  | succ fuel ih =>
    refine readsNumerals_peek? (fun ahead hahead => ?_)
    split
    · obtain ⟨rest, rfl⟩ := List.head?_eq_some_iff.mp hahead
      split
      · next hdigit =>
        dsimp only
        split
        · exact (readsNumerals_discard_countDigits _).bind (fun _ rest =>
            readsNumerals_afterDigits _ _ _ rest)
        · exact readsNumerals_advance (isNumeral_of_isDigit hdigit) (ih _ _ rest)
      · split
        · exact leaves_refuseAhead
        · exact readsNumerals_afterDigits _ _ _ _
    · split
      · exact leaves_refuseAhead
      · exact readsNumerals_afterDigits _ _ _ cs

theorem readsNumerals_fractionPart (negative : Bool) (significand : Nat) (exponent : Int)
    (hc : isNumeral c = true) :
    ReadsNumerals (fractionPart negative significand exponent) (c :: rest) :=
  readsNumerals_advance hc (readsNumerals_get (fun _ => readsNumerals_fractionDigits _ _ _ _ _ rest))

theorem readsNumerals_afterInteger (negative : Bool) (significand : Nat) (cs : List Char) :
    ReadsNumerals (afterInteger negative significand) cs := by
  refine readsNumerals_peek? (fun ahead hahead => ?_)
  split
  · obtain ⟨rest, rfl⟩ := List.head?_eq_some_iff.mp hahead
    exact readsNumerals_fractionPart _ _ _ rfl
  · obtain ⟨rest, rfl⟩ := List.head?_eq_some_iff.mp hahead
    exact readsNumerals_exponentPart _ _ _ rfl
  · obtain ⟨rest, rfl⟩ := List.head?_eq_some_iff.mp hahead
    exact readsNumerals_exponentPart _ _ _ rfl
  · split
    · exact readsNumerals_pure _
    · split
      · exact readsNumerals_pure _
      · exact readsNumerals_pure _

theorem readsNumerals_afterLongInteger (negative : Bool) (significand : Nat) (exponent : Int)
    (cs : List Char) :
    ReadsNumerals (afterLongInteger negative significand exponent) cs := by
  refine readsNumerals_peek? (fun ahead hahead => ?_)
  split
  · obtain ⟨rest, rfl⟩ := List.head?_eq_some_iff.mp hahead
    exact readsNumerals_fractionPart _ _ _ rfl
  · exact readsNumerals_afterDigits _ _ _ cs

theorem readsNumerals_integerDigits (negative : Bool) (fuel significand : Nat) (cs : List Char) :
    ReadsNumerals (integerDigits negative fuel significand) cs := by
  induction fuel generalizing significand cs with
  | zero => exact leaves_refuseHere
  | succ fuel ih =>
    refine readsNumerals_peek? (fun ahead hahead => ?_)
    split
    · obtain ⟨rest, rfl⟩ := List.head?_eq_some_iff.mp hahead
      split
      · next hdigit =>
        dsimp only
        split
        · exact (readsNumerals_countDigits _).bind (fun _ rest => readsNumerals_afterLongInteger _ _ _ rest)
        · exact readsNumerals_advance (isNumeral_of_isDigit hdigit) (ih _ rest)
      · exact readsNumerals_afterInteger _ _ _
    · exact readsNumerals_afterInteger _ _ cs

def ReadsNumeral (r : Reader α) (cs : List Char) : Prop := Leaves r cs (fun _ rest => Numeral cs rest)

theorem ReadsNumeral.bind {f : α → Reader β} (hr : ReadsNumeral r cs)
    (hf : ∀ a rest, ReadsNumerals (f a) rest) :
    ReadsNumeral (r >>= f) cs :=
  Leaves.bind hr (fun a rest h => (hf a rest).imp (fun _ _ h' => h.trans h'))

theorem readsNumeral_advance {f : Unit → Reader α} (hc : isNumeral c = true) (h : ReadsNumerals (f ()) rest) :
    ReadsNumeral (advance >>= f) (c :: rest) :=
  leaves_advance (h.imp (fun _ _ h => ⟨c, rest, hc, rfl, h⟩))

theorem readsNumeral_countDigits (hc : c.isDigit = true) : ReadsNumeral countDigits (c :: rest) := by
  intro cur n c' hcur hr
  cases hr
  refine ⟨c, rest, isNumeral_of_isDigit hc, rfl, rest.takeWhile Char.isDigit, fun a ha => ?_, ?_⟩
  · exact isNumeral_of_isDigit (List.mem_takeWhile_imp ha)
  · simp [hcur, hc]

theorem readsNumeral_stepwiseNumber (negative : Bool) (cs : List Char) :
    ReadsNumeral (stepwiseNumber negative) cs := by
  refine leaves_peek? (fun ahead hahead => ?_)
  split
  · exact leaves_refuseHere
  · obtain ⟨rest, rfl⟩ := List.head?_eq_some_iff.mp hahead
    refine readsNumeral_advance rfl (readsNumerals_peek? (fun ahead _ => ?_))
    split
    · split
      · exact leaves_refuseAhead
      · exact readsNumerals_afterInteger _ _ rest
    · exact readsNumerals_afterInteger _ _ rest
  · obtain ⟨rest, rfl⟩ := List.head?_eq_some_iff.mp hahead
    split
    · next hdigit =>
      refine readsNumeral_advance (isNumeral_of_isDigit hdigit) (readsNumerals_get (fun _ => ?_))
      exact readsNumerals_integerDigits _ _ _ rest
    · exact leaves_refuseAhead

theorem readsNumeral_numberBody (negative : Bool) (cs : List Char) :
    ReadsNumeral (numberBody negative) cs := by
  refine leaves_get (fun before => ReadsNumeral.bind (readsNumeral_stepwiseNumber negative cs)
    (fun n rest => ?_))
  split
  · split
    · exact readsNumerals_pure _
    · exact readsNumerals_pure _
  · exact readsNumerals_pure _

def skipExponentDigits : Reader Unit := do
  match ← peek? with
  | some c => if c.isDigit then discard countDigits else refuseAhead
  | none => refuseHere

def skipExponent : Reader Unit := do
  if (← peek?) = some 'e' ∨ (← peek?) = some 'E' then do
    advance
    if (← peek?) = some '+' ∨ (← peek?) = some '-' then advance
    skipExponentDigits

def skipFraction : Reader Unit := do
  if (← peek?) = some '.' then do
    advance
    let n ← countDigits
    if n = 0 then refuseAhead
  skipExponent

theorem readsNumerals_skipExponentDigits (cs : List Char) : ReadsNumerals skipExponentDigits cs := by
  refine readsNumerals_peek? (fun ahead _ => ?_)
  split
  · split
    · exact readsNumerals_discard_countDigits cs
    · exact leaves_refuseAhead
  · exact leaves_refuseHere

/-- One of two characters is ahead if either is. -/
theorem exists_cons_of_head? {a b : Char} (h : cs.head? = some a ∨ cs.head? = some b) :
    ∃ c rest, cs = c :: rest ∧ (c = a ∨ c = b) := by
  rcases h with h | h
  · obtain ⟨rest, rfl⟩ := List.head?_eq_some_iff.mp h
    exact ⟨a, rest, rfl, .inl rfl⟩
  · obtain ⟨rest, rfl⟩ := List.head?_eq_some_iff.mp h
    exact ⟨b, rest, rfl, .inr rfl⟩

theorem readsNumerals_skipExponent (cs : List Char) : ReadsNumerals skipExponent cs := by
  refine readsNumerals_peek? ?_
  rintro _ rfl
  refine readsNumerals_peek? ?_
  rintro _ rfl
  split
  · next hletter =>
    obtain ⟨c, rest, rfl, hc⟩ := exists_cons_of_head? hletter
    refine readsNumerals_advance (by rcases hc with rfl | rfl <;> rfl) (readsNumerals_peek? ?_)
    rintro _ rfl
    refine readsNumerals_peek? ?_
    rintro _ rfl
    dsimp only
    split
    · next hsign =>
      obtain ⟨c, rest, rfl, hc⟩ := exists_cons_of_head? hsign
      exact readsNumerals_advance (by rcases hc with rfl | rfl <;> rfl)
        (readsNumerals_skipExponentDigits rest)
    · exact readsNumerals_skipExponentDigits rest
  · exact readsNumerals_pure _

theorem readsNumerals_skipFraction (cs : List Char) : ReadsNumerals skipFraction cs := by
  refine readsNumerals_peek? (fun ahead hahead => ?_)
  dsimp only
  split
  · next hpoint =>
    obtain ⟨rest, rfl⟩ := List.head?_eq_some_iff.mp (hahead.trans hpoint)
    refine readsNumerals_advance rfl ((readsNumerals_countDigits rest).bind (fun n rest => ?_))
    split
    · exact leaves_bind_of_gives gives_refuseAhead
    · exact readsNumerals_skipExponent rest
  · exact readsNumerals_skipExponent cs

theorem readsNumeral_skipNumber (cs : List Char) : ReadsNumeral skipNumber cs := by
  refine leaves_peek? (fun ahead hahead => ?_)
  dsimp only
  split
  · obtain ⟨rest, rfl⟩ := List.head?_eq_some_iff.mp hahead
    refine readsNumeral_advance rfl (readsNumerals_peek? (fun ahead _ => ?_))
    split
    · exact leaves_bind_of_gives gives_refuseAhead
    · exact readsNumerals_skipFraction rest
  · obtain ⟨rest, rfl⟩ := List.head?_eq_some_iff.mp hahead
    split
    · next hdigit =>
      exact ReadsNumeral.bind ((readsNumeral_countDigits hdigit).discard.imp (fun _ _ ⟨_, h⟩ => h))
        (fun _ rest => readsNumerals_skipFraction rest)
    · exact leaves_bind_of_gives gives_refuseAhead
  · exact leaves_bind_of_gives gives_refuseHere

end

end ProviderSdk.Json.Reader
