import ProviderSdk.Text.Prose

/-!
# Descriptions as comments

The forms in which a description stands in generated code. Every form comes in two kinds: one keeps
the line breaks of the text, the other fills its words into lines. Whatever would end the comment
early is written differently.
-/

namespace ProviderSdk.Code

open Text (splitAt replaced reflowChars proseLineChars proseWidth)

/-- How the lines of a description are found. -/
inductive LineRule where
  | kept
  | filled
  deriving DecidableEq, Repr

inductive CommentForm where
  | starred
  | docstring
  | summary
  | slashed
  deriving DecidableEq, Repr

/-- The least number of columns that filled text gets. -/
def leastWidth : Nat := 20

def CommentForm.markWidth : CommentForm → Nat
  | .starred => 3
  | .docstring => 0
  | .summary => 4
  | .slashed => 3

/-- The columns that are left for filled text behind indentation and marks. -/
def CommentForm.room (form : CommentForm) (indentation : Nat) : Nat :=
  max leastWidth (proseWidth - (indentation + form.markWidth))

/-- A line behind a mark, with a space between them unless the line is empty. -/
def marked (mark line : List Char) : List Char := if line.isEmpty then mark else mark ++ ' ' :: line

def tripleQuote : List Char := ['"', '"', '"']

/-- Three double quotes, each behind a backslash. -/
def escapedTripleQuote : List Char := ['\\', '"', '\\', '"', '\\', '"']

/-- A text in XML, with entities for what begins a tag or an entity and for what ends a tag. -/
def xmlEscaped (cs : List Char) : List Char :=
  cs.flatMap (fun c =>
    if c = '&' then "&amp;".toList
    else if c = '<' then "&lt;".toList
    else if c = '>' then "&gt;".toList
    else [c])

def xmlText (s : String) : String := String.ofList (xmlEscaped s.toList)

def CommentForm.around : CommentForm → List (List Char) → List (List Char)
  | _, [] => []
  | .starred, lines => "/**".toList :: lines.map (marked " *".toList) ++ [" */".toList]
  | .docstring, lines => tripleQuote :: lines.map (replaced tripleQuote escapedTripleQuote) ++ [tripleQuote]
  | .summary, lines =>
    "/// <summary>".toList :: lines.map (fun line => marked "///".toList (xmlEscaped line)) ++
      ["/// </summary>".toList]
  | .slashed, lines => lines.map (marked "//".toList)

def LineRule.lines (rule : LineRule) (width : Nat) (text : List Char) : List (List Char) :=
  match rule with
  | .kept => if text.isEmpty then [] else proseLineChars text
  | .filled => reflowChars width text

/-- A description as a comment that stands behind the given columns of indentation. -/
def CommentForm.lines (form : CommentForm) (rule : LineRule) (indentation : Nat) (text : List Char) :
    List (List Char) :=
  form.around (rule.lines (form.room indentation) text)

end ProviderSdk.Code
