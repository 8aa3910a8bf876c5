/-!
# Indentation

How one level of indentation is written, and how wide it counts.
-/

namespace ProviderSdk.Code

inductive Indent where
  /-- Spaces; two, four and eight are known widths, and any other width is taken as four. -/
  | spaces (width : Nat)
  | tab
  deriving DecidableEq, Repr

namespace Indent

/-- How many spaces stand for a width. -/
def spaceCount : Nat → Nat
  | 2 => 2
  | 8 => 8
  | _ => 4

def unit : Indent → List Char
  | .spaces width => List.replicate (spaceCount width) ' '
  | .tab => ['\t']

def width : Indent → Nat
  | .spaces width => spaceCount width
  | .tab => 4

def levels (i : Indent) (n : Nat) : List Char := (List.replicate n i.unit).flatten

def two : Indent := .spaces 2

def four : Indent := .spaces 4

end Indent

end ProviderSdk.Code
