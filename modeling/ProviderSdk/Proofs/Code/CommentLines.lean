import ProviderSdk.Proofs.Code.Lines
import ProviderSdk.Proofs.Text.Filling

/-!
# Lines of comments

A comment has the lines that open it, a line for every line of the description, and the lines that
close it. Languages do not agree on what ends a line, so the lines that a reader of the comment sees
depend on the language; they are those that were written as long as the description holds nothing
that ends a line.
-/

namespace ProviderSdk.Code

open Text (splitAt isBlank replaced sanitizeChars reflowChars proseLineChars filled_reflowChars)

variable {cs head line : List Char} {lines more : List (List Char)}

def CommentForm.opening : CommentForm → List (List Char)
  | .starred => ["/**".toList]
  | .docstring => [tripleQuote]
  | .summary => ["/// <summary>".toList]
  | .slashed => []

def CommentForm.closing : CommentForm → List (List Char)
  | .starred => [" */".toList]
  | .docstring => [tripleQuote]
  | .summary => ["/// </summary>".toList]
  | .slashed => []

/-- A line of the description with its mark, and with what the comment may not hold written differently. -/
def CommentForm.written : CommentForm → List Char → List Char
  | .starred, line => marked " *".toList line
  | .docstring, line => replaced tripleQuote escapedTripleQuote line
  | .summary, line => marked "///".toList (xmlEscaped line)
  | .slashed, line => marked "//".toList line

theorem CommentForm.around_eq (form : CommentForm) (hne : lines ≠ []) :
    form.around lines = form.opening ++ lines.map form.written ++ form.closing := by
  obtain ⟨first, rest, rfl⟩ := List.exists_cons_of_ne_nil hne
  cases form with
  | starred | docstring | summary => rfl
  | slashed => exact (List.append_nil _).symm

theorem CommentForm.mem_around {form : CommentForm} (h : line ∈ form.around lines) :
    line ∈ form.opening ++ form.closing ∨ ∃ described ∈ lines, line = form.written described := by
  by_cases hne : lines = []
  · rw [hne] at h
    cases form <;> cases h
  · rw [form.around_eq hne, List.append_assoc] at h
    rcases List.mem_append.mp h with hopening | h
    · exact .inl (List.mem_append_left _ hopening)
    rcases List.mem_append.mp h with hwritten | hclosing
    · obtain ⟨described, hdescribed, rfl⟩ := List.mem_map.mp hwritten
      exact .inr ⟨described, hdescribed, rfl⟩
    · exact .inl (List.mem_append_right _ hclosing)

theorem CommentForm.written_mem_around (form : CommentForm) (h : line ∈ lines) :
    form.written line ∈ form.around lines := by
  rw [form.around_eq (List.ne_nil_of_mem h)]
  exact List.mem_append_left _ (List.mem_append_right _ (List.mem_map_of_mem h))

def isPlain (c : Char) : Bool := c == ' ' || !isBlank c

theorem marked_eq (mark line : List Char) :
    marked mark line = mark ++ ((if line.isEmpty then [] else [' ']) ++ line) := by
  rw [marked]
  split
  · next h => rw [List.isEmpty_iff.mp h, List.append_nil, List.append_nil]
  · rfl

theorem CommentForm.isPlain_around_nil {form : CommentForm} (h : line ∈ form.opening ++ form.closing) :
    ∀ c ∈ line, isPlain c = true := by
  have hall : ∀ line ∈ form.opening ++ form.closing, line.all isPlain = true := by
    cases form <;> decide
  exact List.all_eq_true.mp (hall line h)

theorem mem_marked {mark : List Char} {c : Char} (h : c ∈ marked mark line) :
    c ∈ mark ∨ c = ' ' ∨ c ∈ line := by
  rw [marked] at h
  split at h
  · exact .inl h
  · simpa using h

theorem xmlEscaped_cons (c : Char) (cs : List Char) :
    xmlEscaped (c :: cs) = xmlEscaped [c] ++ xmlEscaped cs :=
  @List.flatMap_append _ _ [c] cs _

theorem xmlEscaped_singleton (c : Char) :
    xmlEscaped [c] = [c] ∨
      c ∈ ['&', '<', '>'] ∧ ∃ entity, ('&' :: entity).any isBlank = false ∧
        xmlEscaped [c] = '&' :: entity := by
  by_cases hamp : c = '&'
  · exact .inr ⟨by simp [hamp], "amp;".toList, by decide, by rw [hamp]; rfl⟩
  by_cases hless : c = '<'
  · exact .inr ⟨by simp [hless], "lt;".toList, by decide, by rw [hless]; rfl⟩
  by_cases hgreater : c = '>'
  · exact .inr ⟨by simp [hgreater], "gt;".toList, by decide, by rw [hgreater]; rfl⟩
  · rw [xmlEscaped, List.flatMap_cons, if_neg hamp, if_neg hless, if_neg hgreater]
    exact .inl rfl

theorem mem_xmlEscaped {c : Char} (h : c ∈ xmlEscaped cs) : isPlain c = true ∨ c ∈ cs := by
  induction cs with
  | nil => cases h
  | cons first rest ih =>
    rw [xmlEscaped_cons] at h
    rcases List.mem_append.mp h with hc | hc
    · rcases xmlEscaped_singleton first with heq | ⟨-, entity, hblank, heq⟩
      · rw [heq] at hc
        exact .inr (List.mem_append_left rest hc)
      · rw [heq] at hc
        exact .inl (by simp [isPlain, List.any_eq_false.mp hblank c hc])
    · exact (ih hc).imp_right (List.mem_cons_of_mem first)

theorem CommentForm.mem_written {form : CommentForm} {c : Char} (h : c ∈ form.written line) :
    isPlain c = true ∨ c ∈ line := by
  have hmark {mark line : List Char} (hplain : mark.all isPlain = true) (h : c ∈ marked mark line) :
      isPlain c = true ∨ c ∈ line := by
    rcases mem_marked h with hmark | rfl | hline
    · exact .inl (List.all_eq_true.mp hplain c hmark)
    · exact .inl (by decide)
    · exact .inr hline
  cases form with
  | starred => exact hmark (by decide) h
  | docstring =>
    have hplain : escapedTripleQuote.all isPlain = true := by decide
    exact (Text.mem_replaced h).imp_left (List.all_eq_true.mp hplain c)
  | summary => exact (hmark (by decide) h).elim .inl mem_xmlEscaped
  | slashed => exact hmark (by decide) h

theorem mem_splitAt_of_mem (sep : Char) {c : Char} (h : c ∈ cs) :
    c = sep ∨ ∃ piece ∈ splitAt sep cs, c ∈ piece := by
  by_cases hc : c = sep
  · exact .inl hc
  · have hkept : c ∈ (splitAt sep cs).flatten := by
      rw [splitAt, Text.flatten_splitWhere]
      exact List.mem_filter.mpr ⟨h, by simpa using hc⟩
    exact .inr (List.mem_flatten.mp hkept)

/-- A line that is filled has no blanks but spaces. -/
theorem isPlain_of_mem_reflowChars {width : Nat} (h : line ∈ reflowChars width cs) :
    ∀ c ∈ line, isPlain c = true := by
  intro c hc
  rcases mem_splitAt_of_mem ' ' hc with rfl | ⟨word, hword, hmem⟩
  · decide
  have hwords : word ∈ (reflowChars width cs).flatMap (splitAt ' ') := List.mem_flatMap.mpr ⟨line, h, hword⟩
  rw [(filled_reflowChars width cs).words_eq] at hwords
  obtain ⟨piece, hpiece, rfl⟩ := List.mem_map.mp hwords
  rcases Text.mem_replaced hmem with hnew | hold
  · have hplain : "*&#47;".toList.all isPlain = true := by decide
    exact List.all_eq_true.mp hplain c hnew
  · simp [isPlain, Text.forall_not_of_mem_splitWhere (List.mem_filter.mp hpiece).1 c hold]

/-- A line that is kept is one of the text, without the end of a comment. -/
theorem mem_proseLineChars (h : line ∈ proseLineChars cs) :
    ∃ piece ∈ splitAt '\n' cs, sanitizeChars piece = line := by
  refine List.mem_map.mp ?_
  rw [proseLineChars] at h
  split at h
  · exact (List.dropLast_sublist _).subset h
  · exact h

theorem lines_kept (width : Nat) (cs : List Char) : LineRule.kept.lines width cs = proseLineChars cs := by
  rw [LineRule.lines]
  split
  · next hnil => rw [List.isEmpty_iff.mp hnil]; rfl
  · rfl

theorem LineRule.feed_not_mem {rule : LineRule} {width : Nat} (h : line ∈ rule.lines width cs) :
    '\n' ∉ line := by
  intro hmem
  cases rule with
  | kept =>
    rw [lines_kept] at h
    obtain ⟨piece, hpiece, rfl⟩ := mem_proseLineChars h
    rcases Text.mem_replaced hmem with hnew | hold
    · exact absurd hnew (by decide)
    · exact Text.not_mem_of_mem_splitAt hpiece hold
  | filled => exact absurd (isPlain_of_mem_reflowChars h _ hmem) (by decide)

/-- The characters that end the lines of a language. All of them are blank, and the line feed is one
of them. -/
structure LineEnds where
  ends : Char → Bool
  feed : ends '\n' = true
  space : ends ' ' = false
  tab : ends '\t' = false
  blank : ∀ c, ends c = true → isBlank c = true

variable {e : LineEnds}

def LineEnds.feeds : LineEnds where
  ends c := c == '\n'
  feed := rfl
  space := rfl
  tab := rfl
  blank c h := by rw [beq_iff_eq.mp h]; rfl

/-- What ends lines of C#: line feeds, carriage returns, next-line characters, and separators of
lines and paragraphs. -/
def cSharpLineEnds : List Char := ['\n', '\r', '\u0085', '\u2028', '\u2029']

def LineEnds.cSharp : LineEnds where
  ends c := c ∈ cSharpLineEnds
  feed := rfl
  space := rfl
  tab := rfl
  blank := by simp [cSharpLineEnds]; decide

/-- The lines of a source text. A carriage return that ends lines and a line feed behind it end one line. -/
def LineEnds.linesOf (e : LineEnds) : List Char → List (List Char)
  | [] => []
  | c :: rest =>
    if e.ends c then
      if c = '\r' ∧ rest.head? = some '\n' then e.linesOf rest else [] :: e.linesOf rest
    else match e.linesOf rest with
      | [] => [[c]]
      | line :: more => (c :: line) :: more

namespace LineEnds

theorem linesOf_eq_nil_iff : e.linesOf cs = [] ↔ cs = [] := by
  induction cs with
  | nil => simp [linesOf]
  | cons c rest ih =>
    rw [linesOf]
    split
    · split
      · next hreturn =>
        have hne : rest ≠ [] := by
          rintro rfl
          simp at hreturn
        simp [ih, hne]
      · simp
    · split <;> simp

theorem linesOf_cons_of_ends {c : Char} (h : e.ends c = true) (cs : List Char) :
    e.linesOf (c :: cs) = if c = '\r' ∧ cs.head? = some '\n' then e.linesOf cs else [] :: e.linesOf cs := by
  rw [linesOf, if_pos h]

/-- A line feed ends a line, whatever stands in front of it. -/
theorem linesOf_append_feed (cs ds : List Char) :
    e.linesOf (cs ++ '\n' :: ds) = e.linesOf (cs ++ ['\n']) ++ e.linesOf ds := by
  induction cs with
  | nil => simp [linesOf, e.feed]
  | cons c rest ih =>
    have hhead : (rest ++ '\n' :: ds).head? = (rest ++ ['\n']).head? := by cases rest <;> rfl
    obtain ⟨first, more, hlines⟩ :=
      List.exists_cons_of_ne_nil (mt linesOf_eq_nil_iff.mp (List.concat_ne_nil '\n' rest))
    rw [List.cons_append, List.cons_append, linesOf, linesOf, hhead, ih, hlines]
    split
    · split <;> simp
    · rfl

theorem linesOf_append_of_forall (hhead : ∀ c ∈ head, e.ends c = false) (h : e.linesOf cs = line :: more) :
    e.linesOf (head ++ cs) = (head ++ line) :: more := by
  induction head with
  | nil => exact h
  | cons c head ih =>
    obtain ⟨hc, hrest⟩ := List.forall_mem_cons.mp hhead
    rw [List.cons_append, linesOf, if_neg (by simp [hc]), ih hrest]
    rfl

theorem linesOf_feed : e.linesOf ['\n'] = [[]] := by simp [linesOf, e.feed]

theorem linesOf_line (h : ∀ c ∈ line, e.ends c = false) : e.linesOf (line ++ ['\n']) = [line] := by
  rw [linesOf_append_of_forall h linesOf_feed, List.append_nil]

end LineEnds

/-- A line behind the indentation of a level, without the break that ends it. -/
def indented (i : Indent) (level : Nat) (line : List Char) : List Char :=
  if line.isEmpty then [] else i.levels level ++ line

theorem indentedLine_eq (i : Indent) (level : Nat) (line : List Char) :
    indentedLine i level line = indented i level line ++ ['\n'] := by
  rw [indentedLine, indented]
  split <;> rfl

theorem mem_levels {i : Indent} {level : Nat} {c : Char} (h : c ∈ i.levels level) : c = ' ' ∨ c = '\t' := by
  obtain ⟨unit, hunit, hmem⟩ := List.mem_flatten.mp h
  rw [List.eq_of_mem_replicate hunit] at hmem
  cases i with
  | spaces width => exact .inl (List.eq_of_mem_replicate hmem)
  | tab => exact .inr (List.mem_singleton.mp hmem)

theorem LineEnds.not_ends_of_isPlain {c : Char} (h : isPlain c = true) : e.ends c = false := by
  rw [Bool.eq_false_iff]
  intro hends
  rcases Bool.or_eq_true_iff.mp h with hspace | hblank
  · rw [beq_iff_eq.mp hspace, e.space] at hends
    cases hends
  · simp [e.blank c hends] at hblank

theorem LineEnds.not_ends_levels {i : Indent} {level : Nat} {c : Char} (h : c ∈ i.levels level) :
    e.ends c = false := by
  rcases mem_levels h with rfl | rfl
  · exact e.space
  · exact e.tab

theorem LineEnds.linesOf_indentedLines (i : Indent) (level : Nat) (lines : List (List Char)) :
    e.linesOf (indentedLines i level lines) =
      lines.flatMap (fun line => e.linesOf (indentedLine i level line)) := by
  induction lines with
  | nil => rfl
  | cons line rest ih =>
    rw [indentedLines, List.flatMap_cons, List.flatMap_cons, ← ih, indentedLine_eq, List.append_assoc,
      List.singleton_append, linesOf_append_feed]
    rfl

theorem LineEnds.linesOf_indentedLine (i : Indent) (level : Nat) (h : ∀ c ∈ line, e.ends c = false) :
    e.linesOf (indentedLine i level line) = [indented i level line] := by
  rw [indentedLine_eq]
  refine linesOf_line (fun c hc => ?_)
  rw [indented] at hc
  split at hc
  · cases hc
  · exact (List.mem_append.mp hc).elim not_ends_levels (h c)

/-- A comment is read in the lines in which it is written, if the lines of its description end
nowhere else. -/
theorem LineEnds.linesOf_comment {form : CommentForm} {rule : LineRule} {i : Indent} {level : Nat}
    {text : String}
    (h : ∀ line ∈ rule.lines (form.room (level * i.width)) text.toList, ∀ c ∈ line, e.ends c = false) :
    e.linesOf (Step.chars i level (.comment form rule text)) =
      (form.lines rule (level * i.width) text.toList).map (indented i level) := by
  rw [Step.chars, linesOf_indentedLines, ← List.flatMap_pure_eq_map]
  refine List.flatMap_congr (fun line hline => linesOf_indentedLine i level (fun c hc => ?_))
  rcases CommentForm.mem_around hline with hmark | ⟨described, hdescribed, rfl⟩
  · exact not_ends_of_isPlain (CommentForm.isPlain_around_nil hmark c hc)
  · exact (CommentForm.mem_written hc).elim not_ends_of_isPlain (h described hdescribed c)

theorem LineEnds.linesOf_filled (form : CommentForm) (i : Indent) (level : Nat) (text : String) :
    e.linesOf (Step.chars i level (.comment form .filled text)) =
      (form.lines .filled (level * i.width) text.toList).map (indented i level) :=
  linesOf_comment (fun _ hline c hc => not_ends_of_isPlain (isPlain_of_mem_reflowChars hline c hc))

end ProviderSdk.Code
