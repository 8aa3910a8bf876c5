import ProviderSdk.Code.Comment
import ProviderSdk.Code.Indent

/-!
# Lines of code

Code is a sequence of steps: a line, a comment, one level of indentation more or less. Every line
that is not empty is written behind the indentation of its level, so a description or a body is the
same at every level.
-/

namespace ProviderSdk.Code

inductive Step where
  /-- A line; an empty one is not indented. -/
  | line (text : String)
  | indent
  /-- One level back; at the margin nothing changes. -/
  | dedent
  | comment (form : CommentForm) (rule : LineRule) (text : String)
  deriving DecidableEq, Repr, Inhabited

def indentedLine (i : Indent) (level : Nat) (line : List Char) : List Char :=
  if line.isEmpty then ['\n'] else i.levels level ++ line ++ ['\n']

def indentedLines (i : Indent) (level : Nat) (lines : List (List Char)) : List Char :=
  lines.flatMap (indentedLine i level)

namespace Step

def blank : Step := .line ""

def chars (i : Indent) (level : Nat) : Step → List Char
  | .line text => indentedLine i level text.toList
  | .comment form rule text =>
    indentedLines i level (form.lines rule (level * i.width) text.toList)
  | .indent => []
  | .dedent => []

def next (level : Nat) : Step → Nat
  | .indent => level + 1
  | .dedent => level - 1
  | _ => level

end Step

def charsFrom (i : Indent) : (level : Nat) → List Step → List Char
  | _, [] => []
  | level, step :: rest => step.chars i level ++ charsFrom i (step.next level) rest

def levelAfter (level : Nat) (steps : List Step) : Nat := steps.foldl Step.next level

def text (i : Indent) (steps : List Step) : String := String.ofList (charsFrom i 0 steps)

def nested (body : List Step) : List Step := .indent :: body ++ [.dedent]

def line (s : String) : List Step := [.line s]

def blank : List Step := [.blank]

def lines (ls : List String) : List Step := ls.map Step.line

/-- Lines that end with commas, the last of them with `ending` instead. -/
def commaSeparated (ending : String) : List String → List String
  | [] => []
  | [last] => [last ++ ending]
  | item :: rest => (item ++ ",") :: commaSeparated ending rest

def spaced : List (List Step) → List Step
  | [] => []
  | [part] => part
  | part :: rest => part ++ .blank :: spaced rest

def openBrace : String := "\x7b"

def closeBrace : String := "\x7d"

def braced (s : String) : String := openBrace ++ s ++ closeBrace

/-- A block whose opening brace ends the header. -/
def block (header : String) (body : List Step) : List Step :=
  line (header ++ " " ++ openBrace) ++ nested body ++ line closeBrace

/-- A block whose braces stand on lines of their own. -/
def braceBlock (body : List Step) : List Step := line openBrace ++ nested body ++ line closeBrace

/-- A header above a block whose braces stand on lines of their own. -/
def blockBelow (header : String) (body : List Step) : List Step := line header ++ braceBlock body

/-- A header above a body that only its indentation marks. -/
def suite (header : String) (body : List Step) : List Step := line header ++ nested body

/-- A description in a block comment, its line breaks kept. -/
def starLines (text : String) : List Step := [.comment .starred .kept text]

def starred (text : String) : List Step := [.comment .starred .filled text]

/-- A description in a text between three quotes, its line breaks kept. -/
def docstringLines (text : String) : List Step := [.comment .docstring .kept text]

/-- A description in a text between three quotes, filled. -/
def docstring (text : String) : List Step := [.comment .docstring .filled text]

/-- A description in an XML summary, its line breaks kept. -/
def summaryLines (text : String) : List Step := [.comment .summary .kept text]

def summary (text : String) : List Step := [.comment .summary .filled text]

/-- A description behind slashes, its line breaks kept. -/
def slashLines (text : String) : List Step := [.comment .slashed .kept text]

def slashed (text : String) : List Step := [.comment .slashed .filled text]

@[simp] theorem charsFrom_nil (i : Indent) (level : Nat) : charsFrom i level [] = [] := rfl

@[simp] theorem charsFrom_cons (i : Indent) (level : Nat) (step : Step) (rest : List Step) :
    charsFrom i level (step :: rest) = step.chars i level ++ charsFrom i (step.next level) rest := rfl

theorem charsFrom_append (i : Indent) (level : Nat) (first second : List Step) :
    charsFrom i level (first ++ second) =
      charsFrom i level first ++ charsFrom i (levelAfter level first) second := by
  induction first generalizing level with
  | nil => rfl
  | cons step rest ih => simp [ih, levelAfter]

end ProviderSdk.Code
