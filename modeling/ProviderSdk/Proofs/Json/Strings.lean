import ProviderSdk.Proofs.Json.Printing
import ProviderSdk.Proofs.Json.Reading

/-!
# Strings that are read back

What a reader gives where it succeeds for certain, which is where it finds what has been printed. A
quoted text is read as the text, whatever characters it has.
-/

namespace ProviderSdk.Json.Reader

variable {α β : Type}

/-- The characters ahead, of a text that is longer. -/
structure Ahead (c : Cursor) (cs : List Char) : Prop where
  chars : c.chars = cs
  size : cs.length < c.size

/-- Wherever some characters are ahead, a reader gives a value and leaves the rest of them. -/
def Yields (r : Reader α) (cs : List Char) (a : α) (rest : List Char) : Prop :=
  ∀ c, Ahead c cs → ∃ c', r c = .ok (a, c') ∧ Ahead c' rest

section

variable {r : Reader α} {cs between rest : List Char} {a : α} {b : β} {f : α → Reader β}

theorem yields_pure (a : α) (cs : List Char) : Yields (pure a) cs a cs := fun c hc => ⟨c, rfl, hc⟩

theorem Yields.bind (hr : Yields r cs a between) (hf : Yields (f a) between b rest) :
    Yields (r >>= f) cs b rest := by
  intro c hc
  obtain ⟨c₁, hfirst, hc₁⟩ := hr c hc
  obtain ⟨c₂, hsecond, hc₂⟩ := hf c₁ hc₁
  exact ⟨c₂, bind_eq_ok.mpr ⟨_, hfirst, hsecond⟩, hc₂⟩

theorem yields_peek? {f : Option Char → Reader β} (h : Yields (f cs.head?) cs b rest) :
    Yields (peek? >>= f) cs b rest := by
  rintro c ⟨rfl, hsize⟩
  exact h c ⟨rfl, hsize⟩

theorem yields_peekToken? {f : Option Char → Reader β} (hcs : cs.dropWhile Cursor.isSeparator = cs)
    (h : Yields (f cs.head?) cs b rest) : Yields (peekToken? >>= f) cs b rest := by
  rintro c ⟨rfl, hsize⟩
  have hskipped : c.skipSeparators.chars = c.chars := hcs
  obtain ⟨c', hread, hc'⟩ := h c.skipSeparators ⟨hskipped, hsize⟩
  exact ⟨c', bind_eq_ok.mpr ⟨_, rfl, by rwa [← hskipped] at hread⟩, hc'⟩

theorem yields_advance (d : Char) (rest : List Char) : Yields advance (d :: rest) () rest := by
  rintro c ⟨hchars, hsize⟩
  have hnext : c.next.chars = rest ∧ c.next.size = c.size := by simp [Cursor.next, hchars]
  refine ⟨c.next, rfl, hnext.1, ?_⟩
  rw [hnext.2]
  exact Nat.lt_of_succ_lt hsize

theorem yields_get {f : Cursor → Reader β} (h : ∀ c : Cursor, cs.length < c.size → Yields (f c) cs b rest) :
    Yields (get >>= f) cs b rest :=
  fun c hc => h c hc.size c hc

end

theorem yields_hexQuad {n : Nat} (h : n < 256) (rest : List Char) :
    Yields hexQuad ('0' :: '0' :: hexDigit (n / 16) :: hexDigit (n % 16) :: rest) n rest := by
  rintro c ⟨hchars, hsize⟩
  have hhigh := hexValue?_hexDigit (n := n / 16) (by omega)
  have hlow := hexValue?_hexDigit (n := n % 16) (by omega)
  have hzero : Text.hexValue? '0' = some 0 := rfl
  refine ⟨c.next.next.next.next, ?_, ?_, ?_⟩
  · simp only [hexQuad, hchars, hzero, hhigh, hlow]
    congr 2
    omega
  · simp [Cursor.next, hchars]
  · simp [Cursor.next, hchars] at hsize ⊢
    omega

theorem yields_escape_simple {letter c : Char} (h : simpleEscape? letter = some c) (rest : List Char) :
    Yields escape (letter :: rest) c rest := by
  refine yields_peek? ?_
  split
  · next heq => cases heq
  · next heq =>
    cases heq
    cases h
  · next heq =>
    cases heq
    rw [h]
    exact (yields_advance letter rest).bind (yields_pure c rest)

theorem yields_escape_control {c : Char} (h : c.toNat < 32) (rest : List Char) :
    Yields escape ('u' :: '0' :: '0' :: hexDigit (c.toNat / 16) :: hexDigit (c.toNat % 16) :: rest)
      c rest := by
  refine yields_peek? ((yields_advance 'u' _).bind ((yields_hexQuad (by omega) rest).bind ?_))
  have hlow : isLowSurrogate c.toNat = false := by simp [isLowSurrogate]; omega
  have hhigh : isHighSurrogate c.toNat = false := by simp [isHighSurrogate]; omega
  simp only [hlow, hhigh, Bool.false_eq_true, if_false, Char.ofNat_toNat]
  exact yields_pure c rest

section

variable {cs rest : List Char} {read : List Char} {fuel : Nat} {s : String}

theorem yields_stringTail_escape {code : List Char} {c : Char} (hcode : Yields escape (code ++ cs) c cs)
    (h : Yields (stringTail fuel (c :: read)) cs s rest) :
    Yields (stringTail (fuel + 1) read) ('\\' :: code ++ cs) s rest :=
  yields_peek? ((yields_advance '\\' _).bind (hcode.bind h))

theorem yields_stringTail_plain {c : Char} (hquote : c ≠ '"') (hbackslash : c ≠ '\\') (hcode : 32 ≤ c.toNat)
    (h : Yields (stringTail fuel (c :: read)) cs s rest) :
    Yields (stringTail (fuel + 1) read) (c :: cs) s rest := by
  refine yields_peek? ?_
  split
  · next heq => cases heq
  · next heq =>
    cases heq
    exact absurd rfl hquote
  · next heq =>
    cases heq
    exact absurd rfl hbackslash
  · next heq =>
    cases heq
    rw [if_neg (by omega)]
    exact (yields_advance c cs).bind h

end

theorem yields_stringTail (cs : List Char) {fuel : Nat} (read rest : List Char) (h : cs.length < fuel) :
    Yields (stringTail fuel read) (cs.flatMap escaped ++ '"' :: rest)
      (String.ofList (read.reverse ++ cs)) rest := by
  obtain ⟨fuel, rfl⟩ := Nat.exists_eq_add_one_of_ne_zero (Nat.ne_zero_of_lt h)
  induction cs generalizing fuel read with
  | nil =>
    rw [List.append_nil]
    exact yields_peek? ((yields_advance '"' rest).bind (yields_pure _ rest))
  | cons c cs ih =>
    have hcs : cs.length < fuel := Nat.lt_of_succ_lt_succ h
    obtain ⟨fuel, rfl⟩ := Nat.exists_eq_add_one_of_ne_zero (Nat.ne_zero_of_lt hcs)
    have htail := ih (c :: read) fuel hcs
    rw [List.reverse_cons, List.append_assoc, List.singleton_append] at htail
    rw [List.flatMap_cons, List.append_assoc]
    rcases escaped_cases c with ⟨letter, hc, hletter⟩ | ⟨hc, hcode⟩ | ⟨hc, hquote, hbackslash, hcode⟩
    · rw [hc]
      exact yields_stringTail_escape (yields_escape_simple hletter _) htail
    · rw [hc]
      exact yields_stringTail_escape (yields_escape_control hcode _) htail
    · rw [hc]
      exact yields_stringTail_plain hquote hbackslash hcode htail

theorem length_le_length_flatMap_escaped (cs : List Char) : cs.length ≤ (cs.flatMap escaped).length := by
  induction cs with
  | nil => rfl
  | cons c cs ih =>
    have hc : 1 ≤ (escaped c).length := by
      rcases escaped_cases c with ⟨letter, hc, -⟩ | ⟨hc, -⟩ | ⟨hc, -⟩ <;> simp [hc]
    simp only [List.flatMap_cons, List.length_append, List.length_cons]
    omega

theorem yields_text (cs rest : List Char) : Yields text (quotedChars cs ++ rest) (String.ofList cs) rest := by
  have hquoted : quotedChars cs ++ rest = '"' :: (cs.flatMap escaped ++ '"' :: rest) := by simp [quotedChars]
  rw [hquoted]
  refine yields_peekToken? (by simp [Cursor.isSeparator])
    ((yields_advance '"' _).bind (yields_get (fun c hc => ?_)))
  have hlength := length_le_length_flatMap_escaped cs
  refine yields_stringTail cs [] rest ?_
  rw [List.length_append, List.length_cons] at hc
  omega

theorem yields_finish : Yields finish [] () [] :=
  yields_peekToken? rfl (yields_pure () [])

variable {r : Reader α} {f : α → Reader β} {a : α} {b : β} {written : String} {rounding : NumberRounding}

theorem ahead_start (written : String) (rounding : NumberRounding) :
    Ahead (Cursor.start written rounding) written.toList :=
  ⟨rfl, Nat.lt_succ_self _⟩

theorem Yields.run (h : Yields r written.toList a []) : run r written rounding = .ok a := by
  have hwhole : Yields (do let a ← r; finish; pure a) written.toList a [] :=
    h.bind (yields_finish.bind (yields_pure a []))
  obtain ⟨c, hread, -⟩ := hwhole _ (ahead_start written rounding)
  rw [Reader.run]
  simp only [hread]

/-- What a reader gives for a text is given by its last step from what the first step gives. -/
theorem Yields.gives_of_run_bind {P : β → Prop} (h : Yields r written.toList a []) (hf : Gives P (f a))
    (hrun : Reader.run (r >>= f) written rounding = .ok b) : P b := by
  obtain ⟨c, hfirst, -⟩ := h _ (ahead_start written rounding)
  rw [Reader.run] at hrun
  split at hrun
  · next b' c' hwhole =>
    cases hrun
    obtain ⟨⟨b', c₁⟩, hread, hrest⟩ := bind_eq_ok.mp hwhole
    obtain ⟨⟨a', c₂⟩, ha, hb⟩ := bind_eq_ok.mp hread
    rw [hfirst] at ha
    cases ha
    obtain ⟨_, -, hpure⟩ := bind_eq_ok.mp hrest
    cases hpure
    exact hf c _ c₁ hb
  · cases hrun

end ProviderSdk.Json.Reader
