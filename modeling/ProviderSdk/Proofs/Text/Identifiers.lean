import ProviderSdk.Convention
import ProviderSdk.Proofs.Text.Marks

/-!
# Identifiers

An identifier has letters, digits and underscores, where every character beyond ASCII counts as a
letter. In lower case and cut into words it is an identifier again, and so is the name of a field of
a Python class.
-/

namespace ProviderSdk.Text

def IsNameChar (c : Char) : Prop := c.isAlphanum = true ∨ c = '_' ∨ 128 ≤ c.toNat

instance (c : Char) : Decidable (IsNameChar c) := inferInstanceAs (Decidable (_ ∨ _ ∨ _))

structure IsIdentifier (s : String) : Prop where
  ne_empty : s ≠ ""
  chars : ∀ c ∈ s.toList, IsNameChar c

instance (s : String) : Decidable (IsIdentifier s) :=
  -- Over the characters of the text only: an instance for all characters there are would never end.
  have : Decidable (∀ c ∈ s.toList, IsNameChar c) := List.decidableBAll _ s.toList
  decidable_of_iff (s ≠ "" ∧ ∀ c ∈ s.toList, IsNameChar c) ⟨fun h => ⟨h.1, h.2⟩, fun h => ⟨h.1, h.2⟩⟩

/-- The numbers that the members of a run move to are those of small letters, or of characters
beyond ASCII. -/
def CaseTable.Shift.StaysInNames (s : CaseTable.Shift) : Prop :=
  (97 ≤ s.run.first + s.distance ∧ s.run.last + s.distance ≤ 122) ∨
    (128 ≤ s.run.first + s.distance ∧ s.run.last + s.distance < 0xD800) ∨
    (0xE000 ≤ s.run.first + s.distance ∧ s.run.last + s.distance < 0x110000)

instance (s : CaseTable.Shift) : Decidable s.StaysInNames := inferInstanceAs (Decidable (_ ∨ _ ∨ _))

/-- Whether a character is a small letter or beyond ASCII. -/
def IsSmall (c : Char) : Prop := c.isLower = true ∨ 128 ≤ c.toNat

instance (c : Char) : Decidable (IsSmall c) := inferInstanceAs (Decidable (_ ∨ _))

theorem IsSmall.isNameChar {c : Char} (h : IsSmall c) : IsNameChar c := by
  rcases h with hlower | hbeyond
  · have halphanum : c.isAlphanum = (c.isUpper || c.isLower || c.isDigit) := rfl
    exact .inl (by simp [halphanum, hlower])
  · exact .inr (.inr hbeyond)

theorem IsSmall.not_isUpper {c : Char} (h : IsSmall c) : c.isUpper = false := by
  have hsmall : 97 ≤ c.toNat := by
    rcases h with hlower | hbeyond
    · have hrange : 'a'.val ≤ c.val := of_decide_eq_true (Bool.and_eq_true_iff.mp hlower).1
      exact UInt32.le_iff_toNat_le.mp hrange
    · omega
  refine decide_eq_false (fun hrange => ?_)
  have hle : c.toNat ≤ 90 := UInt32.le_iff_toNat_le.mp hrange.2
  omega

theorem isSmall_ofNat {n : Nat} (h : (97 ≤ n ∧ n ≤ 122) ∨ (128 ≤ n ∧ n.isValidChar)) :
    IsSmall (Char.ofNat n) := by
  obtain ⟨hle, hge⟩ | ⟨hle, hvalid⟩ := h
  · have hsmall : ∀ n < 123, 97 ≤ n → IsSmall (Char.ofNat n) := by decide
    exact hsmall n (by omega) hle
  · refine .inr ?_
    rw [toNat_ofNat, if_pos hvalid]
    exact hle

theorem isSmall_shifted {shifts : List CaseTable.Shift} (h : ∀ s ∈ shifts, s.StaysInNames) {c : Char}
    (hc : 128 ≤ c.toNat) : IsSmall (Char.ofNat (CaseTable.shifted shifts c.toNat)) := by
  obtain hstays | ⟨s, hs, hfirst, hlast, hmoves⟩ := CaseTable.shifted_cases shifts c.toNat
  · rw [hstays, Char.ofNat_toNat]
    exact .inr hc
  · rw [hmoves]
    apply isSmall_ofNat
    simp only [Nat.isValidChar]
    have hstaysIn := h s hs
    rw [CaseTable.Shift.StaysInNames] at hstaysIn
    omega

/-- The small form of a character beyond ASCII is what the tables say. -/
theorem mem_lowerOf_beyond {c c' : Char} (hc : 128 ≤ c.toNat) (h : c' ∈ lowerOf c) :
    (∃ e ∈ CaseTable.toLowerLong, ∃ code ∈ e.2, c' = Char.ofNat code) ∨
      c' = Char.ofNat (CaseTable.shifted CaseTable.toLower c.toNat) := by
  rw [lowerOf, if_neg (Nat.not_lt.mpr hc)] at h
  cases hlookup : CaseTable.toLowerLong.lookup c.toNat with
  | none =>
    rw [hlookup] at h
    exact .inr (List.mem_singleton.mp h)
  | some codes =>
    rw [hlookup] at h
    obtain ⟨code, hcode, rfl⟩ := List.mem_map.mp h
    obtain ⟨before, after, heq, -⟩ := List.lookup_eq_some_iff.mp hlookup
    exact .inl ⟨(c.toNat, codes), by simp [heq], code, hcode, rfl⟩

/-- In lower case, what is beyond ASCII stays there or becomes a small letter. -/
theorem isSmall_lowerOf {c : Char} (hc : 128 ≤ c.toNat) : ∀ c' ∈ lowerOf c, IsSmall c' := by
  intro c' hc'
  have hlong : ∀ e ∈ CaseTable.toLowerLong, ∀ code ∈ e.2, IsSmall (Char.ofNat code) := by decide
  obtain ⟨e, he, code, hcode, rfl⟩ | rfl := mem_lowerOf_beyond hc hc'
  · exact hlong e he code hcode
  · exact isSmall_shifted (by decide +kernel) hc

/-- What holds of the small form of all ASCII characters with a property holds of that of one of them. -/
theorem lowerOf_of_ascii {P Q : Char → Prop} (hrule : ∀ n < 128, P (Char.ofNat n) → Q (Char.ofNat n).toLower)
    {c : Char} (hascii : c.toNat < 128) (h : P c) : ∀ c' ∈ lowerOf c, Q c' := by
  have hlower := hrule c.toNat hascii
  rw [Char.ofNat_toNat] at hlower
  rw [lowerOf, if_pos hascii]
  exact List.forall_mem_singleton.mpr (hlower h)

theorem isNameChar_lowerOf {c : Char} (h : IsNameChar c) : ∀ c' ∈ lowerOf c, IsNameChar c' := by
  rcases Nat.lt_or_ge c.toNat 128 with hascii | hbeyond
  · exact lowerOf_of_ascii (by decide +kernel) hascii h
  · exact fun c' hc' => (isSmall_lowerOf hbeyond c' hc').isNameChar

theorem not_isUpper_lowerOf (c : Char) : ∀ c' ∈ lowerOf c, c'.isUpper = false := by
  rcases Nat.lt_or_ge c.toNat 128 with hascii | hbeyond
  · exact lowerOf_of_ascii (P := fun _ => True) (by decide +kernel) hascii trivial
  · exact fun c' hc' => (isSmall_lowerOf hbeyond c' hc').not_isUpper

theorem wordsOfIdentifierFrom_ne_nil (state : WordState) (current cs : List Char) :
    wordsOfIdentifierFrom state current cs ≠ [] := by
  fun_induction wordsOfIdentifierFrom state current cs <;> simp_all

theorem joinWith_wordsOfIdentifierFrom_ne_nil {sep : Char} {state : WordState} {current cs : List Char}
    (h : current ++ cs ≠ []) : joinWith [sep] (wordsOfIdentifierFrom state current cs) ≠ [] := by
  fun_induction wordsOfIdentifierFrom state current cs with
  | case1 state current => simpa [joinWith] using h
  | case2 _ c _ _ ih | case4 _ c _ _ ih | case6 _ c _ _ ih => exact ih (by simp [keepsMarks_lowerOf.ne_nil c])
  | case3 _ _ _ _ ih | case5 _ _ _ _ ih | case7 _ _ _ _ _ ih | case10 _ _ _ _ ih => exact ih (by simp)
  | case8 | case9 =>
    rw [joinWith_cons_of_ne_nil _ _ (wordsOfIdentifierFrom_ne_nil _ _ _)]
    simp

theorem snakeWords_ne_empty {s : String} (h : s ≠ "") : snakeWords s ≠ "" := by
  intro hempty
  have hchars := congrArg String.toList hempty
  rw [snakeWords, String.toList_ofList] at hchars
  exact joinWith_wordsOfIdentifierFrom_ne_nil (by simpa using h) hchars

theorem IsIdentifier.snakeWords {s : String} (h : IsIdentifier s) : IsIdentifier (snakeWords s) where
  ne_empty := snakeWords_ne_empty h.ne_empty
  chars := forall_mem_snakeWords IsNameChar (fun _ => isNameChar_lowerOf) (.inr (.inl rfl)) h.chars

end ProviderSdk.Text

namespace ProviderSdk

open Text

theorem Convention.isIdentifier_python_fieldName {name : String} (h : IsIdentifier name) :
    IsIdentifier (Convention.python.fieldName name) := by
  rw [fieldName, safe]
  split
  · have hescaped : IsIdentifier (Text.snakeWords name ++ "_") := by
      refine ⟨by simp, fun c hc => ?_⟩
      rw [String.toList_append, List.mem_append] at hc
      obtain hc | hc := hc
      · exact h.snakeWords.chars c hc
      · exact .inr (.inl (List.mem_singleton.mp hc))
    exact hescaped
  · exact h.snakeWords

end ProviderSdk
