import ProviderSdk.Proofs.Code.CommentLines

/-!
# Widths of comments

A description is filled into what is left of a line behind its indentation and its mark, so that the
line is not wider than 120 columns. What the comment may not hold is taken out of the words before
they are filled, or written differently afterwards: in the latter case a line grows, and it fits if
and only if there is room for what it grows by.
-/

namespace ProviderSdk.Code

open Text (byteLength replaced replaced_induction splitAt blankWords sanitizeChars sanitizedWords reflowChars
  filled_reflowChars)

def isPrintable (c : Char) : Bool := ' ' ≤ c && c ≤ '~'

/-- How many columns characters take: a tab four, a printable one of ASCII one, and any other at
most as many as it has bytes. -/
structure Ruler where
  columns : Char → Nat
  tab : columns '\t' = 4
  printable : ∀ c, isPrintable c = true → columns c = 1
  le_size : ∀ c, c ≠ '\t' → columns c ≤ c.utf8Size

/-- Every character but a tab takes one column. -/
def Ruler.characters : Ruler where
  columns c := if c = '\t' then 4 else 1
  tab := rfl
  printable c h := if_neg (by rintro rfl; cases h)
  le_size c h := by rw [if_neg h]; exact c.utf8Size_pos

variable {r : Ruler} {cs line : List Char} {i : Indent} {level : Nat}

def Ruler.width (r : Ruler) (cs : List Char) : Nat := cs.foldr (fun c columns => r.columns c + columns) 0

namespace Ruler

@[simp] theorem width_nil : r.width [] = 0 := rfl

@[simp] theorem width_cons (c : Char) (cs : List Char) : r.width (c :: cs) = r.columns c + r.width cs := rfl

@[simp] theorem width_append (cs ds : List Char) : r.width (cs ++ ds) = r.width cs + r.width ds := by
  induction cs with
  | nil => simp
  | cons c rest ih => rw [List.cons_append, width_cons, width_cons, ih, Nat.add_assoc]

theorem width_of_printable (h : cs.all isPrintable = true) : r.width cs = cs.length := by
  induction cs with
  | nil => rfl
  | cons c rest ih =>
    rw [List.all_cons, Bool.and_eq_true] at h
    rw [width_cons, r.printable c h.1, ih h.2, List.length_cons, Nat.add_comm]

theorem width_le_byteLength (h : '\t' ∉ cs) : r.width cs ≤ byteLength cs := by
  induction cs with
  | nil => exact Nat.le_refl 0
  | cons c rest ih =>
    obtain ⟨hc, hrest⟩ := List.ne_and_not_mem_of_not_mem_cons h
    rw [width_cons, byteLength, List.foldr_cons]
    exact Nat.add_le_add (r.le_size c hc.symm) (ih hrest)

theorem width_levels (i : Indent) (level : Nat) : r.width (i.levels level) = level * i.width := by
  have hunit : r.width i.unit = i.width := by
    cases i with
    | spaces width =>
      rw [Indent.unit, width_of_printable, List.length_replicate]
      · rfl
      · exact List.all_eq_true.mpr (fun c hc => by rw [List.eq_of_mem_replicate hc]; rfl)
    | tab => simp [Indent.unit, Indent.width, r.tab]
  induction level with
  | zero => simp [Indent.levels]
  | succ level ih =>
    rw [Indent.levels] at ih
    rw [Indent.levels, List.replicate_succ, List.flatten_cons, width_append, hunit, ih,
      Nat.succ_mul, Nat.add_comm]

end Ruler

/-- How often three quotes stand in a text, found from left to right without overlap. -/
def tripleQuotes : List Char → Nat
  | '"' :: '"' :: '"' :: rest => tripleQuotes rest + 1
  | _ :: rest => tripleQuotes rest
  | [] => 0

theorem tripleQuotes_cons {c : Char} (h : ¬ tripleQuote <+: c :: cs) :
    tripleQuotes (c :: cs) = tripleQuotes cs := by
  rw [tripleQuotes]
  rintro rest rfl rfl
  exact h (List.prefix_append tripleQuote rest)

/-- The columns by which a line grows when what the comment may not hold is written differently. -/
def CommentForm.growth : CommentForm → List Char → Nat
  | .docstring, line => 3 * tripleQuotes line
  | .summary, line => 4 * line.count '&' + 3 * line.count '<' + 3 * line.count '>'
  | .starred, _ => 0
  | .slashed, _ => 0

theorem width_replaced (cs : List Char) :
    r.width (replaced tripleQuote escapedTripleQuote cs) = r.width cs + 3 * tripleQuotes cs := by
  have hold : r.width tripleQuote = 3 := Ruler.width_of_printable (by decide)
  have hnew : r.width escapedTripleQuote = 6 := Ruler.width_of_printable (by decide)
  refine replaced_induction (motive := fun cs ds => r.width ds = r.width cs + 3 * tripleQuotes cs)
    (List.cons_ne_nil '"' ['"', '"']) rfl (fun rest ih => ?_) (fun c rest hmiss ih => ?_) cs
  · change r.width (escapedTripleQuote ++ _) = r.width (tripleQuote ++ rest) + 3 * (tripleQuotes rest + 1)
    rw [Ruler.width_append, Ruler.width_append, hold, hnew, ih]
    omega
  · rw [Ruler.width_cons, Ruler.width_cons, tripleQuotes_cons hmiss, ih, Nat.add_assoc]

theorem width_xmlEscaped_singleton (c : Char) :
    r.width (xmlEscaped [c]) = r.columns c + CommentForm.summary.growth [c] := by
  by_cases hc : c ∈ ['&', '<', '>']
  · have hall : ∀ c ∈ ['&', '<', '>'], isPrintable c = true ∧ (xmlEscaped [c]).all isPrintable = true ∧
        (xmlEscaped [c]).length = 1 + CommentForm.summary.growth [c] :=
      List.forall_iff_forall_mem.mp (by decide)
    obtain ⟨hprintable, hescaped, hlength⟩ := hall c hc
    rw [Ruler.width_of_printable hescaped, hlength, r.printable c hprintable]
  · have heq : xmlEscaped [c] = [c] := (xmlEscaped_singleton c).resolve_right (fun ⟨hmem, _⟩ => hc hmem)
    have hcount (d : Char) (hd : d ∈ ['&', '<', '>']) : [c].count d = 0 :=
      List.count_eq_zero_of_not_mem (fun hmem => hc (List.mem_singleton.mp hmem ▸ hd))
    rw [heq, CommentForm.growth, hcount '&' (by decide), hcount '<' (by decide), hcount '>' (by decide)]
    exact Ruler.width_cons c []

theorem width_xmlEscaped (cs : List Char) :
    r.width (xmlEscaped cs) = r.width cs + CommentForm.summary.growth cs := by
  induction cs with
  | nil => rfl
  | cons c rest ih =>
    have hgrowth : CommentForm.summary.growth (c :: rest) =
        CommentForm.summary.growth [c] + CommentForm.summary.growth rest := by
      have hcount (d : Char) : (c :: rest).count d = [c].count d + rest.count d :=
        @List.count_append _ _ d [c] rest
      rw [CommentForm.growth, CommentForm.growth, CommentForm.growth, hcount, hcount, hcount]
      omega
    rw [xmlEscaped_cons, Ruler.width_append, Ruler.width_cons, width_xmlEscaped_singleton, ih, hgrowth]
    omega

theorem width_marked {mark : List Char} (h : mark.all isPrintable = true) (hne : line ≠ []) :
    r.width (marked mark line) = mark.length + 1 + r.width line := by
  rw [marked, if_neg (by simpa using hne), Ruler.width_append, Ruler.width_of_printable h, Ruler.width_cons,
    r.printable ' ' (by decide), Nat.add_assoc]

theorem xmlEscaped_ne_nil (hne : line ≠ []) : xmlEscaped line ≠ [] := by
  obtain ⟨c, rest, rfl⟩ := List.exists_cons_of_ne_nil hne
  rw [xmlEscaped_cons]
  rcases xmlEscaped_singleton c with heq | ⟨-, entity, -, heq⟩ <;> simp [heq]

theorem written_ne_nil (form : CommentForm) (hne : line ≠ []) : form.written line ≠ [] := by
  cases form with
  | starred | summary | slashed =>
    rw [CommentForm.written, marked_eq]
    exact List.append_ne_nil_of_left_ne_nil (by decide) _
  | docstring =>
    obtain ⟨c, rest, rfl⟩ := List.exists_cons_of_ne_nil hne
    rw [CommentForm.written]
    by_cases hhit : tripleQuote <+: c :: rest
    · obtain ⟨more, hmore⟩ := hhit
      rw [← hmore, Text.replaced_append (by decide)]
      exact List.append_ne_nil_of_left_ne_nil (by decide) _
    · rw [Text.replaced_cons hhit]
      exact List.cons_ne_nil _ _

theorem width_written {form : CommentForm} (hne : line ≠ []) :
    r.width (form.written line) = form.markWidth + r.width line + form.growth line := by
  cases form with
  | starred => exact width_marked (by decide) hne
  | docstring =>
    rw [CommentForm.written, width_replaced, CommentForm.markWidth, Nat.zero_add, CommentForm.growth]
  | summary =>
    rw [CommentForm.written, width_marked (by decide) (xmlEscaped_ne_nil hne),
      width_xmlEscaped, ← Nat.add_assoc]
    rfl
  | slashed => exact width_marked (by decide) hne

theorem count_space_marked (mark : List Char) (hne : line ≠ []) :
    (marked mark line).count ' ' = mark.count ' ' + 1 + line.count ' ' := by
  rw [marked, if_neg (by simpa using hne), List.count_append, List.count_cons_self]
  omega

theorem count_space_replaced (cs : List Char) :
    (replaced tripleQuote escapedTripleQuote cs).count ' ' = cs.count ' ' := by
  refine replaced_induction (motive := fun cs ds => ds.count ' ' = cs.count ' ')
    (List.cons_ne_nil '"' ['"', '"']) rfl (fun rest ih => ?_) (fun c rest _ ih => ?_) cs
  · rw [List.count_append, List.count_append, ih]
    rfl
  · rw [List.count_cons, List.count_cons, ih]

theorem count_space_xmlEscaped (cs : List Char) : (xmlEscaped cs).count ' ' = cs.count ' ' := by
  induction cs with
  | nil => rfl
  | cons c rest ih =>
    have hc : (xmlEscaped [c]).count ' ' = [c].count ' ' := by
      rcases xmlEscaped_singleton c with heq | ⟨hc, entity, hblank, heq⟩
      · rw [heq]
      · have hentity : ' ' ∉ '&' :: entity := fun hmem => List.any_eq_false.mp hblank ' ' hmem rfl
        have hspace : ' ' ∉ [c] := by
          rintro hmem
          rw [← List.mem_singleton.mp hmem] at hc
          exact absurd hc (by decide)
        rw [heq, List.count_eq_zero_of_not_mem hentity, List.count_eq_zero_of_not_mem hspace]
    rw [xmlEscaped_cons, List.count_append, hc, ih, ← List.count_append, List.singleton_append]

theorem exists_count_space (form : CommentForm) :
    ∃ spaces, ∀ line ≠ [], (form.written line).count ' ' = spaces + line.count ' ' := by
  cases form with
  | starred => exact ⟨" *".toList.count ' ' + 1, fun _ hne => count_space_marked _ hne⟩
  | docstring => exact ⟨0, fun line _ => by rw [CommentForm.written, count_space_replaced, Nat.zero_add]⟩
  | summary =>
    refine ⟨"///".toList.count ' ' + 1, fun line hne => ?_⟩
    rw [CommentForm.written, count_space_marked _ (xmlEscaped_ne_nil hne), count_space_xmlEscaped]
  | slashed => exact ⟨"//".toList.count ' ' + 1, fun _ hne => count_space_marked _ hne⟩

theorem exists_word {width : Nat} (h : line ∈ reflowChars width cs) (hspace : ' ' ∉ line) :
    ∃ word ∈ blankWords cs, sanitizeChars word = line := by
  have hwords : line ∈ (reflowChars width cs).flatMap (splitAt ' ') :=
    List.mem_flatMap.mpr ⟨line, h, by rw [Text.splitAt_of_not_mem hspace]; exact List.mem_singleton_self line⟩
  rw [(filled_reflowChars width cs).words_eq, sanitizedWords, ← Text.blankWords_eq] at hwords
  exact List.mem_map.mp hwords

theorem space_not_mem_word {word : List Char} (h : word ∈ blankWords cs) :
    sanitizeChars word ≠ [] ∧ ' ' ∉ sanitizeChars word := by
  rw [Text.blankWords_eq] at h
  exact Text.mem_sanitizedWords (List.mem_map_of_mem h)

/-- Every line of a description that is filled is at most 120 columns wide, unless it holds a single word. -/
def Fits (r : Ruler) (i : Indent) (level : Nat) (form : CommentForm) (text : String) : Prop :=
  ∀ line ∈ LineEnds.feeds.linesOf (Step.chars i level (.comment form .filled text)),
    r.width line ≤ 120 ∨ ∃ word ∈ blankWords text.toList,
      line = i.levels level ++ form.written (sanitizeChars word)

theorem indented_eq (i : Indent) (level : Nat) (hne : line ≠ []) :
    indented i level line = i.levels level ++ line := by
  rw [indented, if_neg (by simpa using hne)]

theorem width_indented (i : Indent) (level : Nat) (hne : line ≠ []) :
    r.width (indented i level line) = level * i.width + r.width line := by
  rw [indented_eq i level hne, Ruler.width_append, Ruler.width_levels]

/-- The lines that open a comment and those that close it are not empty, and have room in a fifth of
a line. -/
theorem width_mark_le {form : CommentForm} (h : line ∈ form.opening ++ form.closing) :
    line ≠ [] ∧ r.width line ≤ 24 := by
  have hall : ∀ line ∈ form.opening ++ form.closing,
      line ≠ [] ∧ line.length ≤ 24 ∧ line.all isPrintable = true := by
    cases form <;> decide
  rw [Ruler.width_of_printable (hall line h).2.2]
  exact ⟨(hall line h).1, (hall line h).2.1⟩

/-- A comment fits if its lines of several words do so with what they grow by. -/
theorem fits_iff (form : CommentForm) (hlevel : level * i.width ≤ 96) (text : String) :
    Fits r i level form text ↔
      ∀ line ∈ reflowChars (form.room (level * i.width)) text.toList, ' ' ∈ line →
        level * i.width + form.markWidth + r.width line + form.growth line ≤ 120 := by
  have hne {line : List Char} (hline : line ∈ reflowChars (form.room (level * i.width)) text.toList) :
      line ≠ [] :=
    (filled_reflowChars _ _).ne_nil line hline
  have hwidth {line : List Char} (hne : line ≠ []) : r.width (indented i level (form.written line)) =
      level * i.width + form.markWidth + r.width line + form.growth line := by
    rw [width_indented i level (written_ne_nil form hne), width_written hne]
    omega
  rw [Fits, LineEnds.linesOf_filled, List.forall_mem_map]
  constructor
  · intro h line hline hspace
    rcases h _ (form.written_mem_around hline) with hfits | ⟨word, hword, heq⟩
    · rwa [hwidth (hne hline)] at hfits
    · obtain ⟨spaces, hcount⟩ := exists_count_space form
      obtain ⟨hwordne, hwordspace⟩ := space_not_mem_word hword
      rw [indented_eq i level (written_ne_nil form (hne hline))] at heq
      have hsame := congrArg (List.count ' ') (List.append_cancel_left heq)
      rw [hcount line (hne hline), hcount _ hwordne, List.count_eq_zero_of_not_mem hwordspace] at hsame
      have hpos := List.count_pos_iff.mpr hspace
      omega
  · intro h line hline
    rcases CommentForm.mem_around hline with hmark | ⟨described, hdescribed, rfl⟩
    · obtain ⟨hmarkne, hmarkwidth⟩ := @width_mark_le r _ _ hmark
      rw [width_indented i level hmarkne]
      exact .inl (by omega)
    · by_cases hspace : ' ' ∈ described
      · rw [hwidth (hne hdescribed)]
        exact .inl (h described hdescribed hspace)
      · obtain ⟨word, hword, rfl⟩ := exists_word hdescribed hspace
        exact .inr ⟨word, hword, indented_eq i level (written_ne_nil form (hne hdescribed))⟩

/-- What a form does not write differently fits as it is filled. -/
theorem fits_of_growth_eq_zero {form : CommentForm} (hgrowth : ∀ line, form.growth line = 0)
    (hlevel : level * i.width ≤ 96) (text : String) : Fits r i level form text := by
  rw [fits_iff form hlevel]
  intro line hline hspace
  have hroom := ((filled_reflowChars _ _).fits line hline).resolve_right (fun hnot => hnot hspace)
  have htab : '\t' ∉ line := fun htab => absurd (isPlain_of_mem_reflowChars hline _ htab) (by decide)
  have hwidth := @Ruler.width_le_byteLength r _ htab
  have hmark : form.markWidth ≤ 4 := by cases form <;> decide
  rw [CommentForm.room, leastWidth, Text.proseWidth] at hroom
  rw [hgrowth]
  omega

/-- A description that is filled fits into 120 columns as a block comment and behind slashes, where
the indentation leaves room. In every form it does so if and only if each line of several words
leaves room for the columns by which it grows when what the comment may not hold is written
differently. -/
theorem filled_comments_fit (r : Ruler) (i : Indent) (level : Nat) (hlevel : level * i.width ≤ 96)
    (text : String) :
    Fits r i level .starred text ∧ Fits r i level .slashed text ∧
      ∀ form, Fits r i level form text ↔
        ∀ line ∈ LineRule.filled.lines (form.room (level * i.width)) text.toList, ' ' ∈ line →
          level * i.width + form.markWidth + r.width line + form.growth line ≤ 120 :=
  ⟨fits_of_growth_eq_zero (fun _ => rfl) hlevel text, fits_of_growth_eq_zero (fun _ => rfl) hlevel text,
    fun form => fits_iff form hlevel text⟩

theorem tabbedSummary_fits :
    24 * Indent.tab.width ≤ 96 ∧ Fits .characters .tab 24 .summary "Reads a zone & nameservers of it." :=
  ⟨by decide, ((filled_comments_fit .characters .tab 24 (by decide) _).2.2 .summary).mpr (by decide)⟩

/-- A line that has room for its words has none for what they grow by. -/
theorem bracketedSummary_not_fits :
    ¬ Fits .characters .four 2 .summary
      "Any of <a>, <b>, <c>, <d>, <e>, <f>, <g>, <h>, <i>, <j>, <k>, <l>, <m>, <n>." := by
  rw [fits_iff .summary (by decide)]
  decide

end ProviderSdk.Code
