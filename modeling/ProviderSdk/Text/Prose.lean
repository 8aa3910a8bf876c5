import ProviderSdk.Text.Blank
import ProviderSdk.Text.Split

/-!
# Prose for comments

Descriptions on their way into comments: no text may end a block comment, and long text is filled
into lines. Filling puts each word on the current line if the line stays within the width, and on a
new line otherwise; a word alone may be longer than a line.
-/

namespace ProviderSdk.Text

def proseWidth : Nat := 120

/-- What ends a block comment is written with an entity instead. -/
def sanitizeChars (cs : List Char) : List Char := replaced "*/".toList "*&#47;".toList cs

/-- What ends a block comment is written with an entity instead. -/
def sanitize (s : String) : String := String.ofList (sanitizeChars s.toList)

def byteLength (cs : List Char) : Nat := cs.foldr (fun c n => c.utf8Size + n) 0

theorem byteLength_append (cs ds : List Char) : byteLength (cs ++ ds) = byteLength cs + byteLength ds := by
  induction cs with
  | nil => simp [byteLength]
  | cons c cs ih =>
    simp only [byteLength, List.cons_append, List.foldr_cons] at ih ⊢
    omega

theorem utf8ByteSize_ofList (cs : List Char) : (String.ofList cs).utf8ByteSize = byteLength cs := by
  induction cs with
  | nil => rfl
  | cons c rest ih =>
    rw [← List.singleton_append, String.ofList_append, String.utf8ByteSize_append,
      ← String.singleton_eq_ofList, String.utf8ByteSize_singleton, ih]
    rfl

theorem byteLength_le_of_isPrefix {before before' : List Char} (h : before <+: before') :
    byteLength before ≤ byteLength before' := by
  obtain ⟨between, rfl⟩ := h
  rw [byteLength_append]
  exact Nat.le_add_right _ _

/-- Fills words into lines; `current` is the line begun. -/
def fillFrom (width : Nat) (current : List Char) : List (List Char) → List (List Char)
  | [] => if current.isEmpty then [] else [current]
  | word :: rest =>
    if current.isEmpty then fillFrom width word rest
    else if width < byteLength current + byteLength word + 1 then current :: fillFrom width word rest
    else fillFrom width (current ++ ' ' :: word) rest

/-- Fills words into lines of at most `width` bytes. -/
def fill (width : Nat) (words : List (List Char)) : List (List Char) := fillFrom width [] words

/-- The words of a text, sanitized and filled into lines. -/
def reflowChars (width : Nat) (cs : List Char) : List (List Char) :=
  fill width ((blankWords cs).map sanitizeChars)

/-- The words of a text, sanitized and filled into lines. -/
def reflow (s : String) (width : Nat) : List String := (reflowChars width s.toList).map String.ofList

/-- The sanitized lines of a text, a blank one at the end left out. -/
def proseLineChars (cs : List Char) : List (List Char) :=
  let lines := (splitAt '\n' cs).map sanitizeChars
  if (lines.getLast?.any isAllBlank) then lines.dropLast else lines

/-- The sanitized lines of a text, a blank one at the end left out. -/
def proseLines (s : String) : List String := (proseLineChars s.toList).map String.ofList

def withDeprecation (doc : String) : Option String → String
  | none => doc
  | some message =>
    if doc = "" then "Deprecated: " ++ message else trimEnd doc ++ "\n\nDeprecated: " ++ message

end ProviderSdk.Text
