import ProviderSdk.Decimal.Layout
import ProviderSdk.Json.Value

/-!
# JSON text

How a value is written: compact on one line, or indented by two spaces with one member or item a
line. A string is quoted with the shortest escapes, and nothing but quotes, backslashes and control
characters is escaped.
-/

namespace ProviderSdk.Json

open Decimal

/-- Numbers stand with the point in its place from `1e-5` up to `1e16`, whole ones with a fraction;
beyond, they have an exponent, with a sign if it is positive. Exactly between two shortest forms the
even digit is taken. -/
def numberLayout : Layout where
  positional e := decide (-5 ≤ e ∧ e < 16)
  wholeFraction := true
  plusOnExponent := true
  tie := .toEven

def hexDigit (n : Nat) : Char := "0123456789abcdef".toList.getD n '0'

/-- The characters that stand for `c` inside quotes. -/
def escaped (c : Char) : List Char :=
  if c = '"' then ['\\', '"']
  else if c = '\\' then ['\\', '\\']
  else if c.toNat = 8 then ['\\', 'b']
  else if c.toNat = 9 then ['\\', 't']
  else if c.toNat = 10 then ['\\', 'n']
  else if c.toNat = 12 then ['\\', 'f']
  else if c.toNat = 13 then ['\\', 'r']
  else if c.toNat < 32 then ['\\', 'u', '0', '0', hexDigit (c.toNat / 16), hexDigit (c.toNat % 16)]
  else [c]

def quotedChars (cs : List Char) : List Char := '"' :: cs.flatMap escaped ++ ['"']

def quoted (s : String) : String := String.ofList (quotedChars s.toList)

def numberText : Number → String
  | .int n => toString n
  | .float x => if x.isFinite then numberLayout.render x else "null"

mutual

/-- A value on one line without spaces. -/
def render : Json → String
  | .null => "null"
  | .bool true => "true"
  | .bool false => "false"
  | .num n => numberText n
  | .str s => quoted s
  | .arr items => "[" ++ ",".intercalate (renderItems items) ++ "]"
  | .obj members => "\x7b" ++ ",".intercalate (renderMembers members) ++ "\x7d"

def renderItems : List Json → List String
  | [] => []
  | item :: rest => render item :: renderItems rest

def renderMembers : List (String × Json) → List String
  | [] => []
  | (key, value) :: rest => (quoted key ++ ":" ++ render value) :: renderMembers rest

end

def lineBreak (level : Nat) : String := String.ofList ('\n' :: List.replicate (2 * level) ' ')

mutual

/-- A value with one item or member a line, indented by two spaces a level; the value itself starts in the
middle of a line of the given level. -/
def renderLines (level : Nat) : Json → String
  | .arr [] => "[]"
  | .arr items =>
    "[" ++ ",".intercalate (renderItemLines (level + 1) items) ++ lineBreak level ++ "]"
  | .obj [] => "\x7b\x7d"
  | .obj members =>
    "\x7b" ++ ",".intercalate (renderMemberLines (level + 1) members) ++ lineBreak level ++ "\x7d"
  | value => render value

def renderItemLines (level : Nat) : List Json → List String
  | [] => []
  | item :: rest => (lineBreak level ++ renderLines level item) :: renderItemLines level rest

def renderMemberLines (level : Nat) : List (String × Json) → List String
  | [] => []
  | (key, value) :: rest =>
    (lineBreak level ++ quoted key ++ ": " ++ renderLines level value) :: renderMemberLines level rest

end

def pretty (value : Json) : String := renderLines 0 value

end ProviderSdk.Json
