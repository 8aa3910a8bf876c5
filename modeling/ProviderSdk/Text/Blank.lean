/-!
# Blank characters

The characters with the White_Space property, trimming them off the ends of a text, and the words between
them.
-/

namespace ProviderSdk.Text

/-- Whether a character has the White_Space property. -/
def isBlank (c : Char) : Bool :=
  let n := c.toNat
  decide (0x9 ≤ n ∧ n ≤ 0xD) || n == 0x20 || n == 0x85 || n == 0xA0 || n == 0x1680 ||
    decide (0x2000 ≤ n ∧ n ≤ 0x200A) || n == 0x2028 || n == 0x2029 || n == 0x202F || n == 0x205F ||
    n == 0x3000

def dropBlanks (cs : List Char) : List Char := cs.dropWhile isBlank

def dropEndBlanks (cs : List Char) : List Char := (cs.reverse.dropWhile isBlank).reverse

def trimEnd (s : String) : String := String.ofList (dropEndBlanks s.toList)

def trim (s : String) : String := String.ofList (dropEndBlanks (dropBlanks s.toList))

def isAllBlank (cs : List Char) : Bool := cs.all isBlank

/-- The words of `cs`, of which `current` has been read already. -/
def wordsFrom (current : List Char) : List Char → List (List Char)
  | [] => if current.isEmpty then [] else [current]
  | c :: rest =>
    if isBlank c then
      if current.isEmpty then wordsFrom [] rest else current :: wordsFrom [] rest
    else wordsFrom (current ++ [c]) rest

/-- The longest runs of characters that are not blank, in order. -/
def blankWords (cs : List Char) : List (List Char) := wordsFrom [] cs

end ProviderSdk.Text
