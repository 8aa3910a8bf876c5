import ProviderSdk.Text.Case
import ProviderSdk.Text.Split

/-!
# Words

The words of an identifier, and the singular of a noun. An identifier in camel case is cut into
lower-case words. A run of capitals is one word, an acronym, and digits behind an acronym stay with
it; where an acronym runs into a small letter, its last capital begins the next word. The singular
of an English noun is told by its ending, which is looked at in lower case, `ies` alone as it
stands.
-/

namespace ProviderSdk.Text

/-- What the last character of an identifier was, as far as the next word boundary depends on it. -/
inductive WordState where
  | first
  | upper
  | acronym
  | lowerOrDigit
  deriving DecidableEq, Repr

/-- The words of what is left of an identifier, where `current` is the word begun. -/
def wordsOfIdentifierFrom : WordState → (current : List Char) → List Char → List (List Char)
  | _, current, [] => [current]
  | .first, current, c :: rest =>
    if isUppercase c then wordsOfIdentifierFrom .upper (current ++ lowerOf c) rest
    else wordsOfIdentifierFrom .lowerOrDigit (current ++ [c]) rest
  | .upper, current, c :: rest =>
    if isUppercase c then wordsOfIdentifierFrom .acronym (current ++ lowerOf c) rest
    else wordsOfIdentifierFrom .lowerOrDigit (current ++ [c]) rest
  | .acronym, current, c :: rest =>
    if isUppercase c then wordsOfIdentifierFrom .acronym (current ++ lowerOf c) rest
    else if c.isDigit then wordsOfIdentifierFrom .lowerOrDigit (current ++ [c]) rest
    else
      current.dropLast ::
        wordsOfIdentifierFrom .lowerOrDigit (current.getLast?.toList ++ [c]) rest
  | .lowerOrDigit, current, c :: rest =>
    if isUppercase c then current :: wordsOfIdentifierFrom .upper (lowerOf c) rest
    else wordsOfIdentifierFrom .lowerOrDigit (current ++ [c]) rest

def wordsOfIdentifier (cs : List Char) : List (List Char) := wordsOfIdentifierFrom .first [] cs

def splitWords (s : String) : List String := (wordsOfIdentifier s.toList).map String.ofList

def snakeWords (s : String) : String := String.ofList (joinWith ['_'] (wordsOfIdentifier s.toList))

/-- Whether a text ends with `ending` once it is in lower case. -/
def endsInLower (ending : String) (cs : List Char) : Bool := (beforeEnd? ending.toList (lowerAll cs)).isSome

/-- The text without its last `n` characters. -/
def dropLast (n : Nat) (cs : List Char) : List Char := cs.take (cs.length - n)

/-- The singular where the ending is not `ies`. -/
def singularByEnding (cs : List Char) : List Char :=
  if endsInLower "sses" cs || endsInLower "xes" cs || endsInLower "ches" cs || endsInLower "shes" cs then
    dropLast 2 cs
  else if endsInLower "s" cs &&
      !(endsInLower "ss" cs || endsInLower "us" cs || endsInLower "is" cs) then
    dropLast 1 cs
  else cs

def singularChars (cs : List Char) : List Char :=
  match beforeEnd? "ies".toList cs with
  | some (c :: stem) => c :: stem ++ ['y']
  | _ => singularByEnding cs

def singular (s : String) : String := String.ofList (singularChars s.toList)

end ProviderSdk.Text
