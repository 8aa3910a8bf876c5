import ProviderSdk.Decimal.Binary64

/-!
# Decimal numerals

A numeral with an optional sign, a fraction and an exponent, read as an exact decimal; the nearest
binary number to it; and the words for numbers that no decimal can write.
-/

namespace ProviderSdk.Decimal

/-- The natural number that a run of digits writes, after `n` has been read. -/
def digitsValue (n : Nat) (cs : List Char) : Nat := cs.foldl (fun n c => n * 10 + (c.toNat - 48)) n

def takeSign : List Char → Bool × List Char
  | '-' :: rest => (true, rest)
  | '+' :: rest => (false, rest)
  | cs => (false, cs)

/-- The exponent after the digits of a numeral; nothing stands for the exponent zero. -/
def exponent? : List Char → Option Int
  | [] => some 0
  | c :: rest =>
    if c = 'e' ∨ c = 'E' then
      let (negative, digits) := takeSign rest
      if digits.isEmpty || !digits.all Char.isDigit then none
      else some (if negative then -(digitsValue 0 digits : Int) else digitsValue 0 digits)
    else none

/-- Digits, a fraction and an exponent: the decimal `digits · 10 ^ exponent`. One digit at least has to stand
before or after the point. -/
def unsigned? (cs : List Char) : Option (Nat × Int) :=
  let whole := cs.takeWhile Char.isDigit
  let rest := cs.dropWhile Char.isDigit
  let (fraction, rest) := match rest with
    | '.' :: more => (more.takeWhile Char.isDigit, more.dropWhile Char.isDigit)
    | _ => ([], rest)
  if whole.isEmpty && fraction.isEmpty then none
  else (exponent? rest).map (fun e => (digitsValue 0 (whole ++ fraction), e - fraction.length))

/-- The greatest exponent that has to be computed with: beyond it every number of moderate length is
too large, or too small to differ from zero. -/
def clampExponent (digits : Nat) (e : Int) : Int :=
  let bound : Int := (Nat.log2 digits : Int) + 1200
  max (-bound) (min bound e)

/-- The binary number nearest to a numeral. Infinity and NaN are written as words in any case. -/
def parseBinary64? (s : String) : Option Binary64 :=
  let (negative, body) := takeSign s.toList
  let word := String.ofList (body.map Char.toLower)
  if word = "inf" ∨ word = "infinity" then some (.infinity negative)
  else if word = "nan" then some (if negative then Binary64.nan.negated else .nan)
  else (unsigned? body).map (fun (digits, e) => .ofDecimal negative digits (clampExponent digits e))

/-- The integer that a numeral with an optional sign writes, if it lies between the bounds. -/
def parseInt? (lo hi : Int) (s : String) : Option Int :=
  let (negative, digits) := takeSign s.toList
  if digits.isEmpty || !digits.all Char.isDigit then none
  else
    let n : Int := if negative then -(digitsValue 0 digits : Int) else digitsValue 0 digits
    if lo ≤ n ∧ n ≤ hi then some n else none

/-- The natural number below `bound` that a numeral writes; a plus sign may precede it. -/
def parseNat? (bound : Nat) (s : String) : Option Nat :=
  let digits := match s.toList with
    | '+' :: rest => rest
    | cs => cs
  if digits.isEmpty || !digits.all Char.isDigit then none
  else if digitsValue 0 digits < bound then some (digitsValue 0 digits) else none

end ProviderSdk.Decimal
