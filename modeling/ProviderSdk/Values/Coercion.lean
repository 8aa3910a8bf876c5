import ProviderSdk.Decimal.Reading
import ProviderSdk.Schema.Field
import ProviderSdk.Text.Blank

/-!
# Values of a kind

How numbers are brought to the kind of their field, and how the text of an environment variable
becomes a value of a kind. Numbers of a field that is not of kind float are integers of 64 bits.
-/

namespace ProviderSdk

open Decimal (Binary64)

def int64Min : Int := -(Nat.pow 2 63 : Nat)

def int64Max : Int := (Nat.pow 2 63 : Nat) - 1

/-- The kind of fields whose numbers are binary floating point. -/
def ValueKind.isFloat : ValueKind → Bool
  | .scalar .float => true
  | _ => false

/-- A number as a field of a kind holds it: as floating point for floats, and else cut to an integer
that is held within 64 bits. -/
def Number.coerce (kind : ValueKind) : Number → Number
  | .int n =>
    if kind.isFloat then .float (Binary64.ofInt n)
    else if int64Min ≤ n ∧ n ≤ int64Max then .int n
    else .int ((Binary64.ofInt n).clampedInt int64Min int64Max)
  | .float x => if kind.isFloat then .float x else .int (x.clampedInt int64Min int64Max)

/-- A value as a field of a kind holds it; only numbers change. -/
def coerceNumber (kind : ValueKind) : Json → Json
  | .num n => .num (n.coerce kind)
  | v => v

/-- The words for truth in an environment variable. -/
def trueWords : List String := ["1", "t", "T", "true", "TRUE", "True"]

def falseWords : List String := ["0", "f", "F", "false", "FALSE", "False"]

/-- The value of a kind that the text of an environment variable means, if it means one. -/
def envValue? (kind : ValueKind) (raw : String) : Option Json :=
  match kind with
  | .scalar .bool =>
    if trueWords.contains raw then some (.bool true)
    else if falseWords.contains raw then some (.bool false)
    else none
  | .scalar .int => (Decimal.parseInt? int64Min int64Max (Text.trim raw)).map Json.int
  | .scalar .float =>
    match Decimal.parseBinary64? (Text.trim raw) with
    | some x => if x.isFinite then some (.num (.float x)) else none
    | none => none
  | _ => some (.str raw)

end ProviderSdk
