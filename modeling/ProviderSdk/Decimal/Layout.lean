import ProviderSdk.Decimal.Shortest

/-!
# How a decimal is laid out

The same shortest digits are written in several ways: with the point in its place or with an
exponent, with or without a fraction on whole numbers. A layout record says which; `render` writes a
finite number by it.
-/

namespace ProviderSdk.Decimal

/-- The choices of a written number form. -/
structure Layout where
  positional : Int → Bool
  /-- Whole numbers in positional form end in `.0`. -/
  wholeFraction : Bool
  plusOnExponent : Bool
  /-- What happens exactly between two shortest forms. -/
  tie : TieRule

def zeros (count : Nat) : List Char := List.replicate count '0'

def digitsOf (n : Nat) : List Char := Nat.toDigits 10 n

def positionalText (wholeFraction : Bool) (d : Numeral) : List Char :=
  let ds := digitsOf d.digits
  if 0 ≤ d.exponent then
    ds ++ zeros d.exponent.toNat ++ (if wholeFraction then ".0".toList else [])
  else
    let places := (-d.exponent).toNat
    if places < ds.length then ds.take (ds.length - places) ++ '.' :: ds.drop (ds.length - places)
    else "0.".toList ++ zeros (places - ds.length) ++ ds

/-- A decimal with one digit before the point and an exponent of ten. -/
def exponentText (plusOnExponent : Bool) (d : Numeral) : List Char :=
  let ds := digitsOf d.digits
  let e := d.exponent + (ds.length : Int) - 1
  let fraction := match ds.drop 1 with
    | [] => []
    | more => '.' :: more
  ds.take 1 ++ fraction ++ 'e' ::
    (if e < 0 then '-' :: digitsOf e.natAbs
     else (if plusOnExponent then ['+'] else []) ++ digitsOf e.natAbs)

def Layout.chars (l : Layout) (x : Binary64) : List Char :=
  let sign := if x.isNegative then ['-'] else []
  if x.isZero then sign ++ positionalText l.wholeFraction ⟨0, 0⟩
  else
    let d := x.shortest l.tie
    let e := d.exponent + (digitCount d.digits : Int) - 1
    sign ++ (if l.positional e then positionalText l.wholeFraction d else exponentText l.plusOnExponent d)

def Layout.render (l : Layout) (x : Binary64) : String := String.ofList (l.chars x)

end ProviderSdk.Decimal
