import ProviderSdk.Text.Hex
import ProviderSdk.Text.Split

/-!
# Numbers, truth values, dates and times

Which runs of characters are values without quotes and brackets. What they stand for is not told: a
configuration has no use for them, and only their form decides whether a text can be read.
-/

namespace ProviderSdk.Toml

/-- Whether a character may belong to a value without quotes and brackets. -/
def isScalarPart (c : Char) : Bool := c.isAlphanum || ['+', '-', '_', '.', ':'].contains c

def afterSign : List Char → List Char
  | '+' :: cs => cs
  | '-' :: cs => cs
  | cs => cs

/-- Whether digits are written in groups, with an underscore between each two. -/
def isGrouped (isDigit : Char → Bool) (cs : List Char) : Bool :=
  (Text.splitAt '_' cs).all (fun group => !group.isEmpty && group.all isDigit)

/-- Whether a whole number is written in decimal digits, the first of which is zero for zero only. -/
def isWhole (cs : List Char) : Bool := cs == ['0'] || (isGrouped Char.isDigit cs && cs.head? != some '0')

/-- Whether a number is written in decimal digits, with a sign, a fraction and an exponent or without. -/
def isDecimal (cs : List Char) : Bool :=
  let (mantissa, exponent) := (afterSign cs).span (fun c => !(c == 'e' || c == 'E'))
  let (whole, fraction) := mantissa.span (· != '.')
  isWhole whole && (fraction.isEmpty || isGrouped Char.isDigit fraction.tail) &&
    (exponent.isEmpty || isGrouped Char.isDigit (afterSign exponent.tail))

/-- Whether a number is written in the digits of another radix, which may be missing. -/
def isRadixed : List Char → Bool
  | '0' :: mark :: digits =>
    let inRadix (isDigit : Char → Bool) := digits.isEmpty || isGrouped isDigit digits
    match mark with
    | 'x' => inRadix (fun c => (Text.hexValue? c).isSome)
    | 'o' => inRadix (fun c => decide ('0' ≤ c) && decide (c ≤ '7'))
    | 'b' => inRadix (fun c => c == '0' || c == '1')
    | _ => false
  | _ => false

/-- Whether a text is a truth value, or a number that digits cannot write. -/
def isWord (cs : List Char) : Bool :=
  let word := String.ofList cs
  word == "true" || word == "false" || ["inf", "nan"].contains (String.ofList (afterSign cs))

/-- The number that some decimal digits write, and what follows them. -/
def digits? (count : Nat) (cs : List Char) : Option (Nat × List Char) :=
  let digits := cs.take count
  if digits.length = count && digits.all Char.isDigit then
    some (digits.foldl (fun n c => 10 * n + (c.toNat - 48)) 0, cs.drop count)
  else none

/-- A number of some decimal digits within bounds. -/
def digitsWithin? (count low high : Nat) (cs : List Char) : Option (Nat × List Char) :=
  (digits? count cs).filter (fun (n, _) => decide (low ≤ n) && decide (n ≤ high))

def after? (c : Char) (cs : List Char) : Option (List Char) := Text.afterStart? [c] cs

def daysIn (year month : Nat) : Nat :=
  if month = 2 then if year % 4 = 0 && (year % 100 != 0 || year % 400 = 0) then 29 else 28
  else if [4, 6, 9, 11].contains month then 30
  else 31

def afterDate? (cs : List Char) : Option (List Char) := do
  let (year, cs) ← digits? 4 cs
  let (month, cs) ← digitsWithin? 2 1 12 (← after? '-' cs)
  let (_, cs) ← digitsWithin? 2 1 (daysIn year month) (← after? '-' cs)
  some cs

def afterMinutes? (cs : List Char) : Option (List Char) := do
  let (_, cs) ← digitsWithin? 2 0 23 cs
  let (_, cs) ← digitsWithin? 2 0 59 (← after? ':' cs)
  some cs

/-- What follows a time. Seconds may be missing, or have a fraction; a second may be a leap second. -/
def afterTime? (cs : List Char) : Option (List Char) := do
  match ← afterMinutes? cs with
  | ':' :: cs =>
    match ← digitsWithin? 2 0 60 cs with
    | (_, '.' :: cs) => if cs.head?.any Char.isDigit then some (cs.dropWhile Char.isDigit) else none
    | (_, cs) => some cs
  | cs => some cs

/-- Whether a text is the distance from universal time that may stand behind a date with its time. -/
def isOffset : List Char → Bool
  | [] => true
  | ['Z'] => true
  | ['z'] => true
  | '+' :: cs => afterMinutes? cs == some []
  | '-' :: cs => afterMinutes? cs == some []
  | _ => false

def isDateTime (cs : List Char) : Bool :=
  match afterDate? cs with
  | some [] => true
  | some (c :: cs) => (c == 'T' || c == 't' || c == ' ') && (afterTime? cs).any isOffset
  | none => afterTime? cs == some []

/-- Whether a text is a value without quotes and brackets. -/
def isScalar (cs : List Char) : Bool := isWord cs || isDecimal cs || isRadixed cs || isDateTime cs

/-- The length of a run of characters that may belong to a value. Between a date and its time there
may be a blank. -/
def scalarLength (cs : List Char) : Nat :=
  let run := cs.takeWhile isScalarPart
  match cs.drop run.length with
  | ' ' :: cs =>
    let next := cs.takeWhile isScalarPart
    if afterDate? run = some [] && next.head?.any Char.isDigit then run.length + 1 +
      next.length else run.length
  | _ => run.length

/-- A value without quotes and brackets. -/
def scalar? (cs : List Char) : Option (String × List Char) :=
  let run := cs.take (scalarLength cs)
  if isScalar run then some (String.ofList run, cs.drop run.length) else none

end ProviderSdk.Toml
