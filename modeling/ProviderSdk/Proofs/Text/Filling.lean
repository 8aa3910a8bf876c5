import Mathlib.Data.List.Chain
import ProviderSdk.Proofs.Text.Pieces
import ProviderSdk.Text.Prose

/-!
# Filled lines

A text is filled into lines greedily: a word stands on the line of the word before it if the line
then stays within the width. The lines lose no word and make none, and there is no other way to
break the words that obeys these rules.
-/

namespace ProviderSdk.Text

variable {width : Nat} {current line word : List Char} {words lines : List (List Char)}

theorem wordsFrom_eq (h : ∀ c ∈ current, isBlank c = false) (cs : List Char) :
    wordsFrom current cs = (splitWhere isBlank (current ++ cs)).filter (fun piece => !piece.isEmpty) := by
  induction cs generalizing current with
  | nil =>
    rw [wordsFrom, List.append_nil, splitWhere_of_forall h]
    cases current <;> rfl
  | cons c rest ih =>
    rw [wordsFrom]
    split
    · next hc =>
      rw [splitWhere_append isBlank current hc, splitWhere_of_forall h, List.singleton_append,
        List.filter_cons, ih (by simp), List.nil_append]
      cases current <;> rfl
    · next hc =>
      have hgrown : ∀ d ∈ current ++ [c], isBlank d = false :=
        List.forall_mem_append.mpr ⟨h, List.forall_mem_singleton.mpr (by simpa using hc)⟩
      rw [ih hgrown, List.append_assoc, List.singleton_append]

/-- The words of a text are its pieces between blanks that hold something. -/
theorem blankWords_eq (cs : List Char) :
    blankWords cs = (splitWhere isBlank cs).filter (fun piece => !piece.isEmpty) :=
  wordsFrom_eq (by simp) cs

theorem isPrefixOf_close_iff {c : Char} {rest : List Char} :
    "*/".toList.isPrefixOf (c :: rest) = true ↔ c = '*' ∧ rest.head? = some '/' := by
  rw [List.isPrefixOf_iff_prefix, show "*/".toList = ['*', '/'] from rfl, List.cons_prefix_cons]
  cases rest with
  | nil => simp
  | cons d more => simp [eq_comm]

theorem sanitizeChars_induction {motive : List Char → List Char → Prop} (nil : motive [] [])
    (close : ∀ rest, motive rest (sanitizeChars rest) →
      motive ('*' :: '/' :: rest) ("*&#47;".toList ++ sanitizeChars rest))
    (cons : ∀ c rest, ¬ (c = '*' ∧ rest.head? = some '/') → motive rest (sanitizeChars rest) →
      motive (c :: rest) (c :: sanitizeChars rest)) (cs : List Char) : motive cs (sanitizeChars cs) := by
  refine replaced_induction (List.cons_ne_nil '*' ['/']) nil close (fun c rest h => cons c rest ?_) cs
  rwa [← isPrefixOf_close_iff, List.isPrefixOf_iff_prefix]

theorem head?_sanitizeChars (cs : List Char) : (sanitizeChars cs).head? = cs.head? :=
  sanitizeChars_induction (motive := fun cs ds => ds.head? = cs.head?) rfl (fun _ _ => rfl)
    (fun _ _ _ _ => rfl) cs

theorem sanitizeChars_eq_nil_iff {cs : List Char} : sanitizeChars cs = [] ↔ cs = [] := by
  rw [← List.head?_eq_none_iff, head?_sanitizeChars, List.head?_eq_none_iff]

/-- The words of a text between its blanks, each without the end of a comment. -/
def sanitizedWords (cs : List Char) : List (List Char) :=
  ((splitWhere isBlank cs).filter (fun piece => !piece.isEmpty)).map sanitizeChars

theorem mem_sanitizedWords {cs : List Char} (h : word ∈ sanitizedWords cs) : word ≠ [] ∧ ' ' ∉ word := by
  obtain ⟨piece, hkept, rfl⟩ := List.mem_map.mp h
  obtain ⟨hpiece, hne⟩ := List.mem_filter.mp hkept
  refine ⟨fun hnil => ?_, fun hmem => ?_⟩
  · rw [sanitizeChars_eq_nil_iff] at hnil
    simp [hnil] at hne
  · rcases mem_replaced hmem with hmem | hmem
    · simp at hmem
    · exact absurd (forall_not_of_mem_splitWhere hpiece ' ' hmem) (by decide)

def firstWord (line : List Char) : List Char := (splitAt ' ' line).headD []

/-- Words are filled into lines: these are the words of the lines, no line is empty, a line that is
too long is a single word, and no line has room for the first word of the next. -/
structure Filled (width : Nat) (words lines : List (List Char)) : Prop where
  words_eq : lines.flatMap (splitAt ' ') = words
  ne_nil : ∀ line ∈ lines, line ≠ []
  fits : ∀ line ∈ lines, byteLength line ≤ width ∨ ' ' ∉ line
  greedy : lines.IsChain (fun line next => width < byteLength line + 1 + byteLength (firstWord next))

theorem byteLength_space (line word : List Char) :
    byteLength (line ++ ' ' :: word) = byteLength line + byteLength word + 1 := by
  have hspace : byteLength (' ' :: word) = 1 + byteLength word := rfl
  rw [byteLength_append, hspace, Nat.add_comm 1, Nat.add_assoc]

theorem splitAt_space (line : List Char) (h : ' ' ∉ word) :
    splitAt ' ' (line ++ ' ' :: word) = splitAt ' ' line ++ [word] := by
  rw [splitAt_append, splitAt_of_not_mem h]

theorem flatMap_splitAt_eq_nil_iff : lines.flatMap (splitAt ' ') = [] ↔ lines = [] := by
  cases lines with
  | nil => simp
  | cons line rest => simp [splitAt, splitWhere_ne_nil]

theorem exists_first_line (h : lines.flatMap (splitAt ' ') = word :: words) :
    ∃ line rest more, lines = line :: rest ∧ splitAt ' ' line = word :: more := by
  cases lines with
  | nil => cases h
  | cons line rest =>
    obtain ⟨first, more, hfirst⟩ : ∃ first more, splitAt ' ' line = first :: more :=
      List.exists_cons_of_ne_nil (splitWhere_ne_nil _ line)
    rw [List.flatMap_cons, hfirst, List.cons_append] at h
    rw [(List.cons.inj h).1] at hfirst
    exact ⟨line, rest, more, rfl, hfirst⟩

theorem firstWord_eq (h : lines.flatMap (splitAt ' ') = word :: words) (hline : line ∈ lines.head?) :
    firstWord line = word := by
  obtain ⟨first, rest, more, rfl, hfirst⟩ := exists_first_line h
  obtain rfl : first = line := by simpa using hline
  rw [firstWord, hfirst, List.headD_cons]

/-- The words of the line begun come first, then those that are still to be filled. -/
theorem filled_fillFrom (hne : current ≠ []) (hfits : byteLength current ≤ width ∨ ' ' ∉ current)
    (hwords : ∀ word ∈ words, word ≠ [] ∧ ' ' ∉ word) :
    Filled width (splitAt ' ' current ++ words) (fillFrom width current words) := by
  induction words generalizing current with
  | nil =>
    rw [fillFrom, if_neg (by simpa using hne), List.append_nil]
    exact ⟨by simp, by simpa using hne, by simpa using hfits, .singleton _⟩
  | cons word rest ih =>
    obtain ⟨⟨hword, hspace⟩, hrest⟩ := List.forall_mem_cons.mp hwords
    rw [fillFrom, if_neg (by simpa using hne)]
    split
    · next hfull =>
      have hnext := ih hword (.inr hspace) hrest
      rw [splitAt_of_not_mem hspace, List.singleton_append] at hnext
      refine ⟨by rw [List.flatMap_cons, hnext.words_eq], List.forall_mem_cons.mpr ⟨hne, hnext.ne_nil⟩,
        List.forall_mem_cons.mpr ⟨hfits, hnext.fits⟩,
        List.isChain_cons.mpr ⟨fun next hfirst => ?_, hnext.greedy⟩⟩
      rw [firstWord_eq hnext.words_eq hfirst]
      omega
    · next hroom =>
      have hshort : byteLength (current ++ ' ' :: word) ≤ width := by
        rw [byteLength_space]
        exact Nat.not_lt.mp hroom
      have hgrown := ih (List.append_ne_nil_of_right_ne_nil _ (List.cons_ne_nil _ _)) (.inl hshort) hrest
      rwa [splitAt_space _ hspace, List.append_assoc] at hgrown

theorem splitAt_injective (sep : Char) : Function.Injective (splitAt sep) := by
  intro cs ds h
  rw [← joinWith_splitAt sep cs, h, joinWith_splitAt]

theorem prefix_joinWith (sep : List Char) (pieces more : List (List Char)) :
    joinWith sep pieces <+: joinWith sep (pieces ++ more) := by
  induction pieces with
  | nil => exact List.nil_prefix
  | cons piece rest ih =>
    cases rest with
    | nil =>
      cases more with
      | nil => exact List.prefix_refl _
      | cons next more => exact ⟨sep ++ joinWith sep (next :: more), (List.append_assoc ..).symm⟩
    | cons second rest => exact (List.prefix_append_right_inj _).mpr ih

/-- A line whose words begin with those of another begins with it. -/
theorem prefix_of_splitAt {more : List (List Char)} (h : splitAt ' ' line = splitAt ' ' current ++ more) :
    current <+: line := by
  rw [← joinWith_splitAt ' ' current, ← joinWith_splitAt ' ' line, h]
  exact prefix_joinWith _ _ _

theorem Filled.tail (h : Filled width words (line :: lines)) :
    Filled width (lines.flatMap (splitAt ' ')) lines where
  words_eq := rfl
  ne_nil := fun next hnext => h.ne_nil next (List.mem_cons_of_mem line hnext)
  fits := fun next hnext => h.fits next (List.mem_cons_of_mem line hnext)
  greedy := h.greedy.tail

/-- Lines that obey the rules, the first of which begins with the line begun, are those that are filled. -/
theorem Filled.eq_fillFrom {more : List (List Char)}
    (h : Filled width (splitAt ' ' current ++ words) (line :: lines))
    (hline : splitAt ' ' line = splitAt ' ' current ++ more) (hne : current ≠ [])
    (hwords : ∀ word ∈ words, word ≠ [] ∧ ' ' ∉ word) : line :: lines = fillFrom width current words := by
  induction words generalizing current line lines more with
  | nil =>
    have hbehind := h.words_eq
    rw [List.flatMap_cons, hline, List.append_assoc, List.append_cancel_left_eq, List.append_eq_nil_iff,
      flatMap_splitAt_eq_nil_iff] at hbehind
    obtain ⟨rfl, rfl⟩ := hbehind
    rw [List.append_nil] at hline
    rw [fillFrom, if_neg (by simpa using hne), splitAt_injective ' ' hline]
  | cons word rest ih =>
    obtain ⟨⟨hword, hspace⟩, hrest⟩ := List.forall_mem_cons.mp hwords
    have hbehind := h.words_eq
    rw [List.flatMap_cons, hline, List.append_assoc, List.append_cancel_left_eq] at hbehind
    rw [fillFrom, if_neg (by simpa using hne)]
    cases more with
    | nil =>
      -- The line ends here, so the next one begins with the word, for which there was no room.
      rw [List.append_nil] at hline
      obtain rfl := splitAt_injective ' ' hline
      rw [List.nil_append] at hbehind
      obtain ⟨next, lines, more, rfl, hnext⟩ := exists_first_line hbehind
      have hfull := (List.isChain_cons_cons.mp h.greedy).1
      rw [firstWord_eq hbehind rfl] at hfull
      have htail := h.tail
      rw [hbehind, ← List.singleton_append, ← splitAt_of_not_mem hspace] at htail
      rw [← List.singleton_append, ← splitAt_of_not_mem hspace] at hnext
      rw [if_pos (by omega), ih htail hnext hword hrest]
    | cons first more =>
      obtain ⟨rfl, -⟩ := List.cons.inj hbehind
      rw [← List.singleton_append, ← List.append_assoc, ← splitAt_space _ hspace] at hline h
      have hbegins := prefix_of_splitAt hline
      have hfits :=
        (h.fits line List.mem_cons_self).resolve_right (fun hnot => hnot (hbegins.subset (by simp)))
      have hroom := (byteLength_le_of_isPrefix hbegins).trans hfits
      rw [byteLength_space] at hroom
      rw [if_neg (Nat.not_lt.mpr hroom)]
      exact ih h hline (by simp) hrest

theorem filled_iff_eq_fill (hwords : ∀ word ∈ words, word ≠ [] ∧ ' ' ∉ word) :
    Filled width words lines ↔ lines = fill width words := by
  cases words with
  | nil =>
    refine ⟨fun h => flatMap_splitAt_eq_nil_iff.mp h.words_eq, ?_⟩
    rintro rfl
    exact ⟨rfl, by simp [fill, fillFrom], by simp [fill, fillFrom], .nil⟩
  | cons word rest =>
    obtain ⟨⟨hword, hspace⟩, hrest⟩ := List.forall_mem_cons.mp hwords
    rw [fill, fillFrom, List.isEmpty_nil, if_pos rfl, ← List.singleton_append, ← splitAt_of_not_mem hspace]
    refine ⟨fun h => ?_, ?_⟩
    · have hfirst := h.words_eq
      rw [splitAt_of_not_mem hspace] at hfirst
      obtain ⟨line, lines, more, rfl, hline⟩ := exists_first_line hfirst
      rw [← List.singleton_append, ← splitAt_of_not_mem hspace] at hline
      exact h.eq_fillFrom hline hword hrest
    · rintro rfl
      exact filled_fillFrom hword (.inr hspace) hrest

theorem reflowChars_eq (width : Nat) (cs : List Char) :
    reflowChars width cs = fill width (sanitizedWords cs) := by
  rw [reflowChars, blankWords_eq, sanitizedWords]

theorem filled_reflowChars (width : Nat) (cs : List Char) :
    Filled width (sanitizedWords cs) (reflowChars width cs) :=
  (filled_iff_eq_fill (fun _ => mem_sanitizedWords)).mpr (reflowChars_eq width cs)

/-- The lines of a reflowed text have its sanitized words in their order, a single space between
each two on a line. No line is empty, none is longer than the width unless it is a single word, and
none has room for the first word of the next. There is no other way to break the words that obeys
these rules. -/
theorem filled_iff_eq_reflow (s : String) (width : Nat) (lines : List String) :
    Filled width (sanitizedWords s.toList) (lines.map String.toList) ↔ lines = reflow s width := by
  rw [filled_iff_eq_fill (fun _ => mem_sanitizedWords), ← reflowChars_eq, reflow]
  constructor
  · intro h
    rw [← h]
    simp
  · rintro rfl
    simp

example : reflow "Ends  */ here\nor not." 14 = ["Ends *&#47;", "here or not."] := by decide

end ProviderSdk.Text
