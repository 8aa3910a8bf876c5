import ProviderSdk.Proofs.Code.CommentLines

/-!
# Comments behind slashes

Every line of a comment that a reader of the code sees begins with slashes, whatever the
description, as long as its words are filled into lines. A description that keeps its lines is cut
at line feeds only. So it stays in its comment where line feeds end the lines of the language, and
where other characters do so too, it stays there only if it brings slashes of its own behind them.
-/

namespace ProviderSdk.Code

open Text (proseLineChars)

variable {e : LineEnds} {marker line : List Char} {i : Indent} {level : Nat}

def isIndentation (c : Char) : Bool := c == ' ' || c == '\t'

def Commented (marker line : List Char) : Prop := marker <+: line.dropWhile isIndentation

instance (marker line : List Char) : Decidable (Commented marker line) :=
  inferInstanceAs (Decidable (marker <+: line.dropWhile isIndentation))

theorem isIndentation_of_mem_levels : ∀ c ∈ i.levels level, isIndentation c = true := by
  intro c hc
  rcases mem_levels hc with rfl | rfl <;> rfl

theorem commented_indented (hmarker : marker.head? = some '/') (h : marker <+: line) :
    Commented marker (indented i level line) := by
  obtain ⟨rest, rfl⟩ := List.head?_eq_some_iff.mp hmarker
  obtain ⟨more, rfl⟩ := h
  rw [indented, if_neg (by simp), Commented, List.dropWhile_append_of_pos isIndentation_of_mem_levels]
  exact List.prefix_append ('/' :: rest) more

theorem prefix_marked (marker line : List Char) : marker <+: marked marker line := by
  rw [marked_eq]
  exact List.prefix_append marker _

/-- A comment behind slashes has them on each line, if the lines of its description end nowhere else. -/
theorem commented_slashed {rule : LineRule} {text : String}
    (h : ∀ line ∈ rule.lines (CommentForm.slashed.room (level * i.width)) text.toList,
      ∀ c ∈ line, e.ends c = false) :
    ∀ line ∈ e.linesOf (Step.chars i level (.comment .slashed rule text)), Commented "//".toList line := by
  rw [LineEnds.linesOf_comment h]
  refine List.forall_mem_map.mpr (fun line hline => commented_indented rfl ?_)
  rcases CommentForm.mem_around hline with hmark | ⟨described, -, rfl⟩
  · cases hmark
  · exact prefix_marked _ described

theorem prefix_summary {lines : List (List Char)} (h : line ∈ CommentForm.summary.around lines) :
    "///".toList <+: line := by
  rcases CommentForm.mem_around h with hmark | ⟨described, -, rfl⟩
  · have hall : ∀ line ∈ CommentForm.summary.opening ++ CommentForm.summary.closing,
        "///".toList <+: line := by decide
    exact hall line hmark
  · exact prefix_marked _ _

theorem xmlEscaped_of_ends {c : Char} (h : e.ends c = true) : xmlEscaped [c] = [c] := by
  refine (xmlEscaped_singleton c).resolve_right (fun ⟨hc, _⟩ => ?_)
  have hplain : ['&', '<', '>'].all isPlain = true := by decide
  rw [LineEnds.not_ends_of_isPlain (List.all_eq_true.mp hplain c hc)] at h
  cases h

theorem head?_xmlEscaped (cs : List Char) :
    (xmlEscaped cs ++ ['\n']).head? = some '\n' ↔ (cs ++ ['\n']).head? = some '\n' := by
  cases cs with
  | nil => rfl
  | cons c rest =>
    rw [xmlEscaped_cons]
    rcases xmlEscaped_singleton c with heq | ⟨hc, entity, -, heq⟩
    · rw [heq]
      rfl
    · have hne : c ≠ '\n' := by
        rintro rfl
        simp at hc
      simp [heq, hne]

theorem LineEnds.linesOf_xmlEscaped (cs : List Char) :
    e.linesOf (xmlEscaped cs ++ ['\n']) = (e.linesOf (cs ++ ['\n'])).map xmlEscaped := by
  induction cs with
  | nil =>
    change e.linesOf ['\n'] = (e.linesOf ['\n']).map xmlEscaped
    rw [linesOf_feed]
    rfl
  | cons c rest ih =>
    rw [xmlEscaped_cons]
    by_cases hends : e.ends c = true
    · -- No entity begins with a line feed, so a carriage return ends a line by itself in both texts or in none.
      rw [xmlEscaped_of_ends hends, List.singleton_append, List.cons_append, List.cons_append,
        linesOf_cons_of_ends hends, linesOf_cons_of_ends hends]
      simp only [head?_xmlEscaped, ih]
      split
      · rfl
      · rfl
    · obtain ⟨first, more, hlines⟩ :=
        List.exists_cons_of_ne_nil (mt linesOf_eq_nil_iff.mp (List.concat_ne_nil '\n' rest))
      rw [hlines, List.map_cons] at ih
      have hplain : ∀ d ∈ [c], e.ends d = false := by simpa using hends
      have hescaped : ∀ d ∈ xmlEscaped [c], e.ends d = false := fun d hd =>
        (mem_xmlEscaped hd).elim not_ends_of_isPlain (hplain d)
      rw [List.append_assoc, linesOf_append_of_forall hescaped ih, ← xmlEscaped_cons]
      exact (congrArg (List.map xmlEscaped) (linesOf_append_of_forall hplain hlines)).symm

theorem dropWhile_xmlEscaped (cs : List Char) :
    (xmlEscaped cs).dropWhile isIndentation = xmlEscaped (cs.dropWhile isIndentation) := by
  induction cs with
  | nil => rfl
  | cons c rest ih =>
    rw [List.dropWhile_cons, xmlEscaped_cons]
    rcases xmlEscaped_singleton c with heq | ⟨hc, entity, -, heq⟩
    · rw [heq, List.singleton_append, List.dropWhile_cons, ih]
      split
      · rfl
      · rw [xmlEscaped_cons, heq, List.singleton_append]
    · have hvisible : ['&', '<', '>'].any isIndentation = false := by decide
      rw [heq, List.cons_append, List.dropWhile_cons, if_neg (by decide),
        if_neg (List.any_eq_false.mp hvisible c hc), xmlEscaped_cons, heq, List.cons_append]

theorem slashes_of_xmlEscaped_iff {n : Nat} {cs : List Char} :
    List.replicate n '/' <+: xmlEscaped cs ↔ List.replicate n '/' <+: cs := by
  induction n generalizing cs with
  | zero => simp
  | succ n ih =>
    rw [List.replicate_succ]
    cases cs with
    | nil => rfl
    | cons c rest =>
      rw [xmlEscaped_cons, List.cons_prefix_cons]
      rcases xmlEscaped_singleton c with heq | ⟨hc, entity, -, heq⟩
      · rw [heq, List.singleton_append, List.cons_prefix_cons, ih]
      · have hne : '/' ≠ c := by
          rintro rfl
          simp at hc
        simp [heq, hne]

theorem commented_xmlEscaped_iff :
    Commented "///".toList (xmlEscaped line) ↔ Commented "///".toList line := by
  rw [Commented, dropWhile_xmlEscaped]
  exact @slashes_of_xmlEscaped_iff 3 _

/-- The lines that a line of a summary makes are commented if those are that its description begins. -/
theorem forall_commented_written_iff (i : Indent) (level : Nat) (line : List Char) :
    (∀ seen ∈ e.linesOf (indentedLine i level (CommentForm.summary.written line)),
      Commented "///".toList seen) ↔
      ∀ seen ∈ (e.linesOf (line ++ ['\n'])).tail, Commented "///".toList seen := by
  obtain ⟨first, more, hlines⟩ :=
    List.exists_cons_of_ne_nil (mt LineEnds.linesOf_eq_nil_iff.mp (List.concat_ne_nil '\n' line))
  have hseen : e.linesOf (xmlEscaped line ++ ['\n']) = xmlEscaped first :: more.map xmlEscaped := by
    rw [LineEnds.linesOf_xmlEscaped, hlines, List.map_cons]
  let space : List Char := if (xmlEscaped line).isEmpty then [] else [' ']
  have hwritten : indentedLine i level (CommentForm.summary.written line) =
      i.levels level ++ ("///".toList ++ space) ++ (xmlEscaped line ++ ['\n']) := by
    rw [CommentForm.written, marked_eq, indentedLine, if_neg (by simp)]
    simp [space]
  have hmark : ∀ c ∈ i.levels level ++ ("///".toList ++ space), e.ends c = false := by
    have hspace : ("///".toList ++ space).all isPlain = true := by
      simp only [space]
      split <;> decide
    exact fun c hc => (List.mem_append.mp hc).elim LineEnds.not_ends_levels
      (fun hc => LineEnds.not_ends_of_isPlain (List.all_eq_true.mp hspace c hc))
  have hfirst : Commented "///".toList (i.levels level ++ ("///".toList ++ space) ++ xmlEscaped first) := by
    rw [Commented, List.append_assoc, List.dropWhile_append_of_pos isIndentation_of_mem_levels]
    exact List.prefix_append "///".toList _
  rw [hwritten, LineEnds.linesOf_append_of_forall hmark hseen, hlines, List.forall_mem_cons,
    List.forall_mem_map]
  simp only [hfirst, true_and, commented_xmlEscaped_iff]
  rfl

/-- A summary is commented if that is so of the lines that begin inside the lines of its description. -/
theorem forall_commented_summary_iff (i : Indent) (level : Nat) (lines : List (List Char)) :
    (∀ seen ∈ e.linesOf (indentedLines i level (CommentForm.summary.around lines)),
      Commented "///".toList seen) ↔
      ∀ line ∈ lines, ∀ seen ∈ (e.linesOf (line ++ ['\n'])).tail, Commented "///".toList seen := by
  rw [LineEnds.linesOf_indentedLines]
  constructor
  · intro h line hline
    rw [← forall_commented_written_iff i level]
    exact fun seen hseen =>
      h seen (List.mem_flatMap.mpr ⟨_, CommentForm.summary.written_mem_around hline, hseen⟩)
  · intro h seen hseen
    obtain ⟨line, hline, hseen⟩ := List.mem_flatMap.mp hseen
    rcases CommentForm.mem_around hline with hmark | ⟨described, hdescribed, rfl⟩
    · rw [LineEnds.linesOf_indentedLine i level
        (fun c hc => LineEnds.not_ends_of_isPlain (CommentForm.isPlain_around_nil hmark c hc))] at hseen
      rw [List.mem_singleton.mp hseen]
      exact commented_indented rfl (prefix_summary hline)
    · exact (forall_commented_written_iff i level described).mpr (h described hdescribed) seen hseen

/-- Filled descriptions have slashes on every line that is seen of them, whatever ends lines, and so
do those behind two slashes that keep their lines where line feeds end them. Where other characters
end lines too, a summary that keeps the lines of its description has them if and only if every line
that begins inside a line of the description begins with slashes of its own. -/
theorem slashes_begin_lines (i : Indent) (level : Nat) (text : String) :
    (∀ e : LineEnds,
        (∀ line ∈ e.linesOf (Step.chars i level (.comment .summary .filled text)),
          Commented "///".toList line) ∧
          ∀ line ∈ e.linesOf (Step.chars i level (.comment .slashed .filled text)),
            Commented "//".toList line) ∧
      (∀ line ∈ LineEnds.feeds.linesOf (Step.chars i level (.comment .slashed .kept text)),
        Commented "//".toList line) ∧
      ((∀ line ∈ LineEnds.cSharp.linesOf (Step.chars i level (.comment .summary .kept text)),
          Commented "///".toList line) ↔
        ∀ line ∈ proseLineChars text.toList, ∀ seen ∈ (LineEnds.cSharp.linesOf (line ++ ['\n'])).tail,
          Commented "///".toList seen) := by
  refine ⟨fun e => ⟨?_, commented_slashed ?_⟩, commented_slashed ?_, ?_⟩
  · rw [LineEnds.linesOf_filled]
    exact List.forall_mem_map.mpr (fun line hline => commented_indented rfl (prefix_summary hline))
  · exact fun line hline c hc => LineEnds.not_ends_of_isPlain (isPlain_of_mem_reflowChars hline c hc)
  · exact fun line hline c hc =>
      beq_eq_false_iff_ne.mpr (fun hfeed => LineRule.feed_not_mem hline (hfeed ▸ hc))
  · rw [Step.chars, CommentForm.lines, lines_kept]
    exact forall_commented_summary_iff i level _

/-- A carriage return in a description that keeps its lines begins a line without slashes. -/
theorem summary_not_commented :
    ¬ ∀ line ∈ LineEnds.cSharp.linesOf (Step.chars .four 1 (.comment .summary .kept "Reads.\rreturn;")),
      Commented "///".toList line := by
  decide

end ProviderSdk.Code
