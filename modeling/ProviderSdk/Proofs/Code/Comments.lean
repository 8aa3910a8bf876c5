import Mathlib.Data.List.Chain
import ProviderSdk.Proofs.Code.CommentLines

/-!
# Block comments

What would end a block comment is taken out of the text by words or by lines. Nothing that is put
around them makes it again: neither the space between two words, nor the marks before a line, nor
the break behind it. So a comment ends where it is meant to.
-/

namespace ProviderSdk.Code

open Text (splitAt joinWith sanitizeChars isBlank isAllBlank reflowChars proseLineChars Ended
  sanitizeChars_induction
  joinWith_splitAt filled_reflowChars)

variable {cs ds line : List Char}

/-- No star has a slash behind it. -/
def Unclosed (cs : List Char) : Prop := cs.IsChain (fun c d => c = '*' → d ≠ '/')

instance (cs : List Char) : Decidable (Unclosed cs) := inferInstanceAs (Decidable (cs.IsChain _))

theorem Unclosed.append (hcs : Unclosed cs) (hds : Unclosed ds)
    (hseam : cs.getLast? ≠ some '*' ∨ ds.head? ≠ some '/') : Unclosed (cs ++ ds) := by
  refine List.isChain_append.mpr ⟨hcs, hds, fun c hc d hd hstar hslash => ?_⟩
  subst hstar hslash
  exact hseam.elim (fun h => h hc) (fun h => h hd)

theorem Unclosed.append_ended (hcs : Unclosed cs) (hended : Ended cs) (hds : Unclosed ds) :
    Unclosed (cs ++ ds) := by
  refine hcs.append hds (.inl ?_)
  rcases hended with rfl | ⟨front, rfl⟩ <;> simp

theorem unclosed_of_not_mem (h : '*' ∉ cs) : Unclosed cs := by
  induction cs with
  | nil => exact .nil
  | cons c rest ih =>
    obtain ⟨hc, hrest⟩ := List.ne_and_not_mem_of_not_mem_cons h
    exact List.isChain_cons.mpr ⟨fun _ _ hstar => absurd hstar.symm hc, ih hrest⟩

theorem unclosed_sanitizeChars (cs : List Char) : Unclosed (sanitizeChars cs) := by
  refine sanitizeChars_induction (motive := fun _ ds => Unclosed ds) .nil (fun rest ih => ?_)
    (fun c rest hkept ih => ?_) cs
  · exact Unclosed.append (by decide) ih (.inl (by decide))
  · refine List.isChain_cons.mpr ⟨fun d hd hstar hslash => hkept ⟨hstar, ?_⟩, ih⟩
    rw [Text.head?_sanitizeChars, hslash] at hd
    exact hd

theorem unclosed_joinWith {pieces : List (List Char)} (h : ∀ piece ∈ pieces, Unclosed piece) :
    Unclosed (joinWith [' '] pieces) := by
  have hspace : Unclosed [' '] := by decide
  induction pieces with
  | nil => exact .nil
  | cons piece rest ih =>
    obtain ⟨hpiece, hrest⟩ := List.forall_mem_cons.mp h
    cases rest with
    | nil => exact hpiece
    | cons second rest => exact (hpiece.append hspace (.inr (by decide))).append (ih hrest) (.inl (by simp))

theorem unclosed_of_mem_reflowChars {width : Nat} (h : line ∈ reflowChars width cs) : Unclosed line := by
  rw [← joinWith_splitAt ' ' line]
  refine unclosed_joinWith (fun word hword => ?_)
  have hmem : word ∈ (reflowChars width cs).flatMap (splitAt ' ') := List.mem_flatMap.mpr ⟨line, h, hword⟩
  rw [(filled_reflowChars width cs).words_eq] at hmem
  obtain ⟨piece, -, rfl⟩ := List.mem_map.mp hmem
  exact unclosed_sanitizeChars piece

theorem unclosed_of_mem_proseLineChars (h : line ∈ proseLineChars cs) : Unclosed line := by
  obtain ⟨piece, -, rfl⟩ := mem_proseLineChars h
  exact unclosed_sanitizeChars piece

theorem LineRule.unclosed {rule : LineRule} {width : Nat} (h : line ∈ rule.lines width cs) :
    Unclosed line := by
  cases rule with
  | kept =>
    rw [lines_kept] at h
    exact unclosed_of_mem_proseLineChars h
  | filled => exact unclosed_of_mem_reflowChars h

theorem unclosed_marked (h : Unclosed line) : Unclosed (marked " *".toList line) := by
  have hspace : Unclosed [' '] := by decide
  rw [marked]
  split
  · decide
  · exact Unclosed.append (by decide) (hspace.append h (.inl (by decide))) (.inr (by simp))

theorem star_not_mem_levels (i : Indent) (level : Nat) : '*' ∉ i.levels level := by
  rw [Indent.levels, List.mem_flatten]
  rintro ⟨unit, hunit, hmem⟩
  rw [List.eq_of_mem_replicate hunit] at hmem
  cases i with
  | spaces width => exact absurd (List.eq_of_mem_replicate hmem) (by decide)
  | tab => simp [Indent.unit] at hmem

theorem Unclosed.indented (h : Unclosed line) (i : Indent) (level : Nat) :
    Unclosed (i.levels level ++ line) := by
  have hlevels := star_not_mem_levels i level
  exact (unclosed_of_not_mem hlevels).append h (.inl (fun hlast => hlevels (List.mem_of_getLast? hlast)))

theorem Unclosed.indentedLine (h : Unclosed line) (i : Indent) (level : Nat) :
    Unclosed (indentedLine i level line) := by
  rw [Code.indentedLine]
  split
  · decide
  · exact (h.indented i level).append (by decide) (.inr (by decide))

theorem unclosed_indentedLines {lines : List (List Char)} (h : ∀ line ∈ lines, Unclosed line) (i : Indent)
    (level : Nat) : Unclosed (indentedLines i level lines) := by
  induction lines with
  | nil => exact .nil
  | cons line rest ih =>
    obtain ⟨hline, hrest⟩ := List.forall_mem_cons.mp h
    exact (hline.indentedLine i level).append_ended (ended_indentedLine i level line) (ih hrest)

def occurrences (part cs : List Char) : Nat := cs.tails.countP (fun rest => part.isPrefixOf rest)

theorem occurrences_cons (part : List Char) (c : Char) (rest : List Char) :
    occurrences part (c :: rest) = occurrences part rest + if part.isPrefixOf (c :: rest) then 1 else 0 := by
  rw [occurrences, List.tails, List.countP_cons]
  rfl

/-- Where nothing closes a comment before its end, its end closes it at one place. -/
theorem occurrences_close (h : Unclosed (cs ++ ['*'])) :
    occurrences "*/".toList (cs ++ "*/\n".toList) = 1 := by
  induction cs with
  | nil => decide
  | cons c rest ih =>
    obtain ⟨hc, hrest⟩ := List.isChain_cons.mp h
    have hclose : ¬ "*/".toList.isPrefixOf (c :: (rest ++ "*/\n".toList)) = true := by
      rw [Text.isPrefixOf_close_iff]
      rintro ⟨rfl, hslash⟩
      cases rest with
      | nil => exact absurd hslash (by decide)
      | cons d rest => exact hc d rfl rfl (Option.some.inj hslash)
    rw [List.cons_append, occurrences_cons, ih hrest, if_neg hclose]

theorem isAllBlank_sanitizeChars (cs : List Char) : isAllBlank (sanitizeChars cs) = isAllBlank cs := by
  refine sanitizeChars_induction (motive := fun cs ds => isAllBlank ds = isAllBlank cs) rfl
    (fun rest _ => rfl)
    (fun c rest _ ih => ?_) cs
  rw [isAllBlank, isAllBlank, List.all_cons, List.all_cons]
  exact congrArg (isBlank c && ·) ih

theorem isAllBlank_of_reflowChars {width : Nat} (h : reflowChars width cs = []) : isAllBlank cs = true := by
  have hwords := (filled_reflowChars width cs).words_eq
  rw [h, List.flatMap_nil, eq_comm, Text.sanitizedWords, List.map_eq_nil_iff, List.filter_eq_nil_iff]
    at hwords
  have hflat : (Text.splitWhere isBlank cs).flatten = [] :=
    List.flatten_eq_nil_iff.mpr (fun piece hpiece => by simpa using hwords piece hpiece)
  rw [Text.flatten_splitWhere, List.filter_eq_nil_iff] at hflat
  exact List.all_eq_true.mpr (fun c hc => by simpa using hflat c hc)

theorem isAllBlank_of_proseLineChars (h : proseLineChars cs = []) : isAllBlank cs = true := by
  obtain ⟨front, last, hsplit⟩ :=
    (List.eq_nil_or_concat' (splitAt '\n' cs)).resolve_left (Text.splitWhere_ne_nil _ cs)
  rw [proseLineChars, hsplit, List.map_append, List.map_singleton, List.getLast?_concat, List.dropLast_concat]
    at h
  split at h
  · next hblank =>
    rw [List.map_eq_nil_iff] at h
    rw [h, List.nil_append] at hsplit
    have hcs := joinWith_splitAt '\n' cs
    rw [hsplit] at hcs
    obtain rfl : last = cs := hcs
    simpa [isAllBlank_sanitizeChars] using hblank
  · simp at h

/-- What is written of a description has no lines only if there is nothing to describe. -/
theorem LineRule.isAllBlank_of_lines {rule : LineRule} {width : Nat} (h : rule.lines width cs = []) :
    isAllBlank cs = true := by
  cases rule with
  | kept =>
    rw [lines_kept] at h
    exact isAllBlank_of_proseLineChars h
  | filled => exact isAllBlank_of_reflowChars h

def starredFront (lines : List (List Char)) : List (List Char) :=
  "/**".toList :: lines.map (marked " *".toList)

theorem indentedLines_starred (i : Indent) (level : Nat) {lines : List (List Char)} (hne : lines ≠ []) :
    indentedLines i level (CommentForm.starred.around lines) =
      indentedLines i level (starredFront lines) ++ (i.levels level ++ [' ']) ++ "*/\n".toList := by
  obtain ⟨first, rest, rfl⟩ := List.exists_cons_of_ne_nil hne
  simp [CommentForm.around, starredFront, indentedLines, indentedLine]

theorem prefix_starredFront (i : Indent) (level : Nat) (lines : List (List Char)) :
    i.levels level ++ "/**\n".toList <+: indentedLines i level (starredFront lines) :=
  ⟨indentedLines i level (lines.map (marked " *".toList)),
    by simp [starredFront, indentedLines, indentedLine]⟩

theorem unclosed_starredFront {lines : List (List Char)} (h : ∀ line ∈ lines, Unclosed line) (i : Indent)
    (level : Nat) :
    Unclosed (indentedLines i level (starredFront lines) ++ (i.levels level ++ [' ']) ++ ['*']) := by
  have hfront : Unclosed (indentedLines i level (starredFront lines)) := by
    refine unclosed_indentedLines (List.forall_mem_cons.mpr ⟨by decide, ?_⟩) i level
    exact List.forall_mem_map.mpr (fun line hline => unclosed_marked (h line hline))
  have hlast : Unclosed (i.levels level ++ [' ', '*']) := Unclosed.indented (by decide) i level
  simpa using hfront.append_ended (ended_indentedLines i level _) hlast

/-- What is written of a description in a block comment, if anything, begins with the mark that
opens the comment, ends with the one that closes it, and holds the latter nowhere else. Nothing is
written of a description only if it is blank. -/
theorem starred_closes_once (i : Indent) (level : Nat) (rule : LineRule) (text : String) :
    let written := Step.chars i level (.comment .starred rule text)
    (written = [] ∧ isAllBlank text.toList = true) ∨
      (i.levels level ++ "/**\n".toList <+: written ∧ "*/\n".toList <:+ written ∧
        occurrences "*/".toList written = 1) := by
  rw [Step.chars, CommentForm.lines]
  generalize CommentForm.starred.room (level * i.width) = width
  by_cases hlines : rule.lines width text.toList = []
  · rw [hlines]
    exact .inl ⟨rfl, LineRule.isAllBlank_of_lines hlines⟩
  · have hunclosed : ∀ line ∈ rule.lines width text.toList, Unclosed line := fun _ => LineRule.unclosed
    rw [indentedLines_starred i level hlines]
    refine .inr ⟨?_, List.suffix_append _ _, occurrences_close (unclosed_starredFront hunclosed i level)⟩
    rw [List.append_assoc]
    exact (prefix_starredFront i level _).trans (List.prefix_append _ _)

example : String.ofList (Step.chars .two 1 (.comment .starred .kept "a **/\n\n/ b*/*/\n")) =
    "  /**\n   * a **&#47;\n   *\n   * / b*&#47;*&#47;\n   */\n" := by decide

end ProviderSdk.Code
