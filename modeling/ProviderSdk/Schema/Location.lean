import ProviderSdk.Text.Split
import ProviderSdk.Text.Prose

/-!
# Places in a text

Where a complaint about a text points. Lines are numbered from one, and columns count the bytes read
since the start of the line.
-/

namespace ProviderSdk.Location

structure Position where
  line : Nat
  column : Nat
  deriving DecidableEq, Repr

/-- The position after the first `index` bytes, of which `p` has been reached. -/
def advanceFrom (p : Position) (index : Nat) : List Char → Position
  | [] => p
  | c :: rest =>
    if index < c.utf8Size then ⟨p.line, p.column + index⟩
    else advanceFrom (if c = '\n' then ⟨p.line + 1, 0⟩ else ⟨p.line, p.column + c.utf8Size⟩)
      (index - c.utf8Size) rest

/-- The position after the first `index` bytes of a text. -/
def positionAt (cs : List Char) (index : Nat) : Position := advanceFrom ⟨1, 0⟩ index cs

/-- The lines of a text with the line breaks that end them; what follows the last break is a line if there is
anything. -/
def brokenLines : List Char → List (List Char)
  | [] => []
  | c :: rest =>
    if c = '\n' then [c] :: brokenLines rest
    else match brokenLines rest with
      | [] => [[c]]
      | line :: lines => (c :: line) :: lines

/-- The offset of a column in a line that starts at `start`, columns counted from one and held
within the line. -/
def offsetFrom (start line column : Nat) : List (List Char) → Option Nat
  | [] => none
  | text :: rest =>
    if line ≤ 1 then some (start + min (column - 1) (Text.byteLength text))
    else offsetFrom (start + Text.byteLength text) (line - 1) column rest

/-- The byte offset of a line and a column, columns counted from one. A line that is not there has none. -/
def offset? (cs : List Char) (line column : Nat) : Option Nat :=
  if line = 0 then none else offsetFrom 0 line column (brokenLines cs)

structure Span where
  offset : Nat
  length : Nat
  deriving DecidableEq, Repr

/-- The bytes before the first occurrence of `part`, and the text behind that occurrence. -/
def find? (part : List Char) (before : Nat) : List Char → Option (Nat × List Char)
  | [] => if part.isEmpty then some (before, []) else none
  | c :: rest =>
    match Text.afterStart? part (c :: rest) with
    | some behind => some (before, behind)
    | none => find? part (before + c.utf8Size) rest

/-- The span of the last of several quoted keys, each looked for behind the one before it. -/
def spanOfKeys? (start : Nat) : List (List Char) → List Char → Option Span
  | [], _ => none
  | key :: keys, cs => do
    let quoted := '"' :: key ++ ['"']
    let (before, behind) ← find? quoted start cs
    let length := Text.byteLength quoted
    if keys.isEmpty then some ⟨before, length⟩ else spanOfKeys? (before + length) keys behind

/-- The span of the last key of a path with dots. -/
def spanOfPath? (cs : List Char) (path : String) : Option Span :=
  spanOfKeys? 0 (Text.splitAt '.' path.toList) cs

end ProviderSdk.Location
