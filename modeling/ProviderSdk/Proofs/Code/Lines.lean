import Mathlib.Data.List.Basic
import ProviderSdk.Code.Fragment
import ProviderSdk.Proofs.Text.LineFeeds

/-!
# Lines of code that is written out

What lines, blocks and fragments write. Code that is written out and read as lines again has every
line of its steps that stands at the margin, up to what follows a line break inside of it.
-/

namespace ProviderSdk

namespace Text

/-- What has no separator begins the first piece. -/
theorem exists_splitAt_append {sep : Char} {head : List Char} (h : sep ∉ head) (rest : List Char) :
    ∃ more pieces, splitAt sep (head ++ rest) = (head ++ more) :: pieces := by
  induction head with
  | nil =>
    obtain ⟨more, pieces, hrest⟩ := List.exists_cons_of_ne_nil (splitWhere_ne_nil (· == sep) rest)
    exact ⟨more, pieces, hrest⟩
  | cons c head ih =>
    obtain ⟨hc, hhead⟩ := List.ne_and_not_mem_of_not_mem_cons h
    obtain ⟨more, pieces, hpieces⟩ := ih hhead
    refine ⟨more, pieces, ?_⟩
    rw [splitAt] at hpieces ⊢
    rw [List.cons_append, splitWhere, hpieces]
    simp [Ne.symm hc]

/-- A beginning that does not end with a carriage return is kept. -/
theorem prefix_withoutReturn {head more : List Char} (h : head.getLast? ≠ some '\r') :
    head <+: withoutReturn (head ++ more) := by
  rcases List.eq_nil_or_concat' more with rfl | ⟨front, last, rfl⟩
  · simp [withoutReturn_eq h]
  · by_cases hlast : last = '\r'
    · rw [hlast, withoutReturn, ← List.append_assoc, beforeEnd?_append, Option.getD_some]
      exact List.prefix_append head front
    · rw [withoutReturn_eq (by simpa [← List.append_assoc] using hlast)]
      exact List.prefix_append head _

def Ended (cs : List Char) : Prop := cs = [] ∨ ∃ front, cs = front ++ ['\n']

/-- At the start of a line stands a line, or what comes before a line break. -/
theorem exists_line_append {before head : List Char} (hbefore : Ended before) (hhead : '\n' ∉ head)
    (hne : head ≠ []) (hlast : head.getLast? ≠ some '\r') (rest : List Char) :
    ∃ l ∈ textLines (before ++ (head ++ rest)), head <+: l := by
  obtain ⟨more, pieces, hpieces⟩ := exists_splitAt_append hhead rest
  obtain ⟨front, hsplit⟩ : ∃ front, splitAt '\n' (before ++ (head ++ rest)) =
      front ++ (head ++ more) :: pieces := by
    rcases hbefore with rfl | ⟨front, rfl⟩
    · exact ⟨[], hpieces⟩
    · refine ⟨splitAt '\n' front, ?_⟩
      rw [List.append_assoc, List.singleton_append, splitAt_append, hpieces]
  rcases List.eq_nil_or_concat' pieces with rfl | ⟨pieces, last, rfl⟩
  · refine ⟨head ++ more, ?_, List.prefix_append _ _⟩
    rw [textLines, hsplit, unsnoc_concat]
    exact List.mem_append_right _ (by simp [hne])
  · refine ⟨withoutReturn (head ++ more), ?_, prefix_withoutReturn hlast⟩
    rw [textLines, hsplit, ← List.cons_append, ← List.append_assoc, unsnoc_concat]
    exact List.mem_append_left _ (List.mem_map_of_mem (by simp))

theorem Ended.append {cs ds : List Char} (hcs : Ended cs) (hds : Ended ds) : Ended (cs ++ ds) := by
  rcases hds with rfl | ⟨front, rfl⟩
  · rwa [List.append_nil]
  · exact .inr ⟨cs ++ front, (List.append_assoc ..).symm⟩

end Text

namespace Code

open Text (Ended)

theorem ended_indentedLine (i : Indent) (level : Nat) (l : List Char) : Ended (indentedLine i level l) := by
  rw [indentedLine]
  split
  · exact .inr ⟨[], rfl⟩
  · exact .inr ⟨_, rfl⟩

theorem ended_indentedLines (i : Indent) (level : Nat) (ls : List (List Char)) :
    Ended (indentedLines i level ls) := by
  induction ls with
  | nil => exact .inl rfl
  | cons l rest ih => exact (ended_indentedLine i level l).append ih

theorem ended_charsFrom (i : Indent) (level : Nat) (steps : List Step) : Ended (charsFrom i level steps) := by
  induction steps generalizing level with
  | nil => exact .inl rfl
  | cons step rest ih =>
    refine Ended.append ?_ (ih _)
    cases step with
    | line text => exact ended_indentedLine i level _
    | comment form rule text => exact ended_indentedLines i level _
    | indent | dedent => exact .inl rfl

theorem mem_stepsOf {l : String} {fragments : List Fragment} (h : Fragment.line l ∈ fragments) :
    Step.line l ∈ stepsOf fragments := by
  induction fragments with
  | nil => cases h
  | cons f rest ih =>
    rw [stepsOf]
    rcases List.mem_cons.mp h with rfl | h
    · exact List.mem_append_left _ (List.mem_singleton_self _)
    · exact List.mem_append_right _ (ih h)

structure IsLineStart (head : String) : Prop where
  ne_empty : head ≠ ""
  not_break : '\n' ∉ head.toList
  not_return : head.toList.getLast? ≠ some '\r'

theorem exists_line_ofText {before head rest : String} (hbefore : Ended before.toList)
    (hhead : IsLineStart head) :
    ∃ l, Fragment.line l ∈ Fragment.ofText (before ++ (head ++ rest)) ∧ head.toList <+: l.toList := by
  obtain ⟨l, hl, hprefix⟩ := Text.exists_line_append hbefore hhead.not_break (by simpa using hhead.ne_empty)
    hhead.not_return rest.toList
  refine ⟨String.ofList l, List.mem_map_of_mem ?_, by rwa [String.toList_ofList]⟩
  simpa using hl

/-- Code that is written out and read as lines again has the lines of its steps that stand at the margin. -/
theorem exists_line_text {i : Indent} {before after : List Step} {head rest : String}
    (hlevel : levelAfter 0 before = 0) (hhead : IsLineStart head) :
    ∃ l, Fragment.line l ∈ Fragment.ofText (text i (before ++ .line (head ++ rest) :: after)) ∧
      head.toList <+: l.toList := by
  have hline : Step.chars i 0 (.line (head ++ rest)) = head.toList ++ (rest.toList ++ ['\n']) := by
    rw [Step.chars, indentedLine, if_neg (by simp [hhead.ne_empty]), String.toList_append]
    simp [Indent.levels]
  have htext : text i (before ++ .line (head ++ rest) :: after) = text i before ++
      (head ++ String.ofList (rest.toList ++ ['\n'] ++ charsFrom i 0 after)) := by
    rw [text, charsFrom_append, hlevel, charsFrom_cons, hline, text, ← String.toList_inj]
    simp [Step.next]
  rw [htext]
  exact exists_line_ofText (by rw [text, String.toList_ofList]; exact ended_charsFrom i 0 before) hhead

theorem text_lines_append (i : Indent) (ls : List String) (rest : List Step) :
    text i (lines ls ++ rest) = String.join (ls.map (fun l => l ++ "\n")) ++ text i rest := by
  have hline (l : List Char) : indentedLine i 0 l = l ++ ['\n'] := by
    cases l <;> rfl
  apply String.toList_injective
  rw [String.toList_append, text, text, String.toList_ofList, String.toList_ofList]
  induction ls with
  | nil => rfl
  | cons l ls ih =>
    rw [lines, List.map_cons, List.cons_append, charsFrom_cons, List.map_cons, String.join_cons,
      String.toList_append, String.toList_append, List.append_assoc]
    change indentedLine i 0 l.toList ++ charsFrom i 0 (lines ls ++ rest) = _
    rw [ih, hline, List.append_assoc, List.append_assoc]
    rfl

end Code

end ProviderSdk
