import ProviderSdk.Proofs.Code.Comments

/-!
# Descriptions between quotes

A description stands between three quotes, its own three quotes behind backslashes. A backslash of
the description may take one of those along, but three quotes are never left next to each other, and
at the end of a line it takes the line break along and not the quotes that close the text.
-/

namespace ProviderSdk.Code

open Text (replaced replaced_induction replaced_cons isAllBlank heldBehind heldBehind_nil
  heldBehind_heldBehind)

variable {cs ds line : List Char}

/-- What a text between three quotes holds, and what follows it; both are behind the quotes that
open it. A backslash takes the character behind it along, and the first three quotes that none has
taken close the text. -/
def closed? : List Char → Option (List Char × List Char)
  | [] => none
  | '"' :: '"' :: '"' :: rest => some ([], rest)
  | '\\' :: c :: rest => heldBehind ['\\', c] (closed? rest)
  | c :: rest => heldBehind [c] (closed? rest)

theorem closed?_cons {c : Char} {rest : List Char} (hbackslash : c ≠ '\\')
    (hquotes : ¬ tripleQuote <+: c :: rest) :
    closed? (c :: rest) = heldBehind [c] (closed? rest) := by
  rw [closed?]
  · rintro more rfl rfl
    exact hquotes (List.prefix_append tripleQuote more)
  · rintro d more rfl
    exact absurd rfl hbackslash

/-- Nothing in a text closes it, and it takes nothing along of what follows. -/
def Passed (cs : List Char) : Prop := ∀ rest, closed? (cs ++ rest) = heldBehind cs (closed? rest)

theorem passed_nil : Passed [] := fun _ => (heldBehind_nil _).symm

theorem Passed.append (hcs : Passed cs) (hds : Passed ds) : Passed (cs ++ ds) := by
  intro rest
  rw [List.append_assoc, hcs, hds, heldBehind_heldBehind]

/-- A character that a backslash takes along may be any. -/
theorem Passed.escape (h : Passed cs) (c : Char) : Passed ('\\' :: c :: cs) := by
  intro rest
  rw [List.cons_append, List.cons_append, closed?, h, heldBehind_heldBehind]
  rfl

theorem Passed.cons {c : Char} (h : Passed cs) (hbackslash : c ≠ '\\')
    (hquotes : ∀ rest, ¬ tripleQuote <+: c :: (cs ++ rest)) : Passed (c :: cs) := by
  intro rest
  rw [List.cons_append, closed?_cons hbackslash (hquotes rest), h, heldBehind_heldBehind]
  rfl

theorem Passed.cons_of_ne {c : Char} (h : Passed cs) (hbackslash : c ≠ '\\') (hquote : c ≠ '"') :
    Passed (c :: cs) :=
  h.cons hbackslash (fun _ hquotes => hquote (List.cons_prefix_cons.mp hquotes).1.symm)

theorem passed_of_forall (h : ∀ c ∈ cs, c ≠ '\\' ∧ c ≠ '"') : Passed cs := by
  induction cs with
  | nil => exact passed_nil
  | cons c rest ih =>
    obtain ⟨hc, hrest⟩ := List.forall_mem_cons.mp h
    exact (ih hrest).cons_of_ne hc.1 hc.2

theorem passed_feed : Passed ['\n'] := passed_nil.cons_of_ne (by decide) (by decide)

theorem passed_levels (i : Indent) (level : Nat) : Passed (i.levels level) := by
  refine passed_of_forall (fun c hc => ?_)
  rcases mem_levels hc with rfl | rfl <;> decide

/-- The quotes that a line begins with when its three quotes are replaced have been there before. -/
theorem quotes_of_replaced {n : Nat} (hn : n < 3) {rest : List Char}
    (h : List.replicate n '"' <+: replaced tripleQuote escapedTripleQuote cs ++ '\n' :: rest) :
    List.replicate n '"' <+: cs := by
  induction n generalizing cs with
  | zero => exact List.nil_prefix
  | succ n ih =>
    by_cases hhit : tripleQuote <+: cs
    · have hall : ∀ n < 3, List.replicate n '"' <+: tripleQuote := by decide
      exact (hall _ hn).trans hhit
    · cases cs with
      | nil => exact absurd (List.cons_prefix_cons.mp h).1 (by decide)
      | cons c cs =>
        rw [replaced_cons hhit, List.cons_append, List.replicate_succ, List.cons_prefix_cons] at h
        exact List.cons_prefix_cons.mpr ⟨h.1, ih (Nat.lt_of_succ_lt hn) h.2⟩

/-- A line of a description is passed with the break behind it, and so it is if a backslash stands
in front of it. -/
theorem passed_replaced (cs : List Char) :
    Passed (replaced tripleQuote escapedTripleQuote cs ++ ['\n']) ∧
      Passed ('\\' :: (replaced tripleQuote escapedTripleQuote cs ++ ['\n'])) := by
  refine replaced_induction (motive := fun _ ds => Passed (ds ++ ['\n']) ∧ Passed ('\\' :: (ds ++ ['\n'])))
    (List.cons_ne_nil '"' ['"', '"']) ⟨passed_feed, passed_nil.escape '\n'⟩ (fun rest ih => ?_)
      (fun c rest hmiss ih => ?_) cs
  · -- A backslash in front takes the first backslash along, so that one quote stands alone.
    refine ⟨((ih.1.escape '"').escape '"').escape '"',
      Passed.escape (Passed.cons ?_ (by decide) (by simp [tripleQuote])) '\\'⟩
    exact (ih.1.escape '"').escape '"'
  · refine ⟨?_, ih.1.escape c⟩
    by_cases hbackslash : c = '\\'
    · rw [hbackslash]
      exact ih.2
    · refine ih.1.cons hbackslash (fun more hquotes => hmiss ?_)
      rw [List.append_assoc] at hquotes
      obtain ⟨hc, htwo⟩ := List.cons_prefix_cons.mp hquotes
      exact List.cons_prefix_cons.mpr ⟨hc, quotes_of_replaced (by decide : 2 < 3) htwo⟩

theorem passed_indentedLine (h : Passed (line ++ ['\n'])) (i : Indent) (level : Nat) :
    Passed (indentedLine i level line) := by
  rw [indentedLine]
  split
  · exact passed_feed
  · rw [List.append_assoc]
    exact (passed_levels i level).append h

theorem passed_indentedLines {lines : List (List Char)} (h : ∀ line ∈ lines, Passed (line ++ ['\n']))
    (i : Indent) (level : Nat) : Passed (indentedLines i level lines) := by
  induction lines with
  | nil => exact passed_nil
  | cons line rest ih =>
    obtain ⟨hline, hrest⟩ := List.forall_mem_cons.mp h
    exact (passed_indentedLine hline i level).append (ih hrest)

def docstringBody (i : Indent) (level : Nat) (lines : List (List Char)) : List Char :=
  '\n' :: (indentedLines i level (lines.map CommentForm.docstring.written) ++ i.levels level)

theorem indentedLines_docstring (i : Indent) (level : Nat) {lines : List (List Char)} (hne : lines ≠ []) :
    indentedLines i level (CommentForm.docstring.around lines) =
      i.levels level ++ tripleQuote ++ (docstringBody i level lines ++ tripleQuote ++ ['\n']) := by
  rw [CommentForm.around_eq _ hne]
  simp [CommentForm.opening, CommentForm.closing, docstringBody, indentedLines, indentedLine, tripleQuote]

theorem suffix_docstringBody (i : Indent) (level : Nat) (lines : List (List Char)) :
    '\n' :: i.levels level <:+ docstringBody i level lines := by
  rcases ended_indentedLines i level (lines.map CommentForm.docstring.written) with hnil | ⟨front, hfront⟩
  · exact ⟨[], by simp [docstringBody, hnil]⟩
  · exact ⟨'\n' :: front, by simp [docstringBody, hfront]⟩

theorem passed_docstringBody (i : Indent) (level : Nat) (lines : List (List Char)) :
    Passed (docstringBody i level lines) := by
  have hlines : Passed (indentedLines i level (lines.map CommentForm.docstring.written)) :=
    passed_indentedLines (List.forall_mem_map.mpr (fun line _ => (passed_replaced line).1)) i level
  exact (hlines.append (passed_levels i level)).cons_of_ne (by decide) (by decide)

/-- What is written of a description between three quotes, if anything, begins with the quotes that
open the text. The first three quotes behind them that no backslash takes along are those on the
last line, with the indentation in front of them and a line break behind them. Nothing is written of
a description only if it is blank. -/
theorem docstring_closes_once (i : Indent) (level : Nat) (rule : LineRule) (text : String) :
    let written := Step.chars i level (.comment .docstring rule text)
    (written = [] ∧ isAllBlank text.toList = true) ∨
      ∃ held, written = i.levels level ++ tripleQuote ++ (held ++ tripleQuote ++ ['\n']) ∧
        '\n' :: i.levels level <:+ held ∧ closed? (held ++ tripleQuote ++ ['\n']) = some (held, ['\n']) := by
  rw [Step.chars, CommentForm.lines]
  generalize CommentForm.docstring.room (level * i.width) = width
  by_cases hlines : rule.lines width text.toList = []
  · rw [hlines]
    exact .inl ⟨rfl, LineRule.isAllBlank_of_lines hlines⟩
  · refine .inr ⟨docstringBody i level (rule.lines width text.toList), indentedLines_docstring i level hlines,
      suffix_docstringBody i level _, ?_⟩
    rw [List.append_assoc, passed_docstringBody]
    simp [closed?, heldBehind, tripleQuote]

example : String.ofList (Step.chars .four 1 (.comment .docstring .kept "\\\"\"\"\"\\")) =
    "    \"\"\"\n    \\\\\"\\\"\\\"\"\\\n    \"\"\"\n" := by decide

end ProviderSdk.Code
