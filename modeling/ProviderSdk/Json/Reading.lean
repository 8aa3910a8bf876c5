import ProviderSdk.Decimal.Reading
import ProviderSdk.Json.Value
import ProviderSdk.Text.Hex

/-!
# Reading JSON text

A reader consumes a text from its start and stops at the first character that does not fit. Every
reader knows what it expects, so that a text may be refused for one of two causes: it is no JSON
from some byte on, or it is JSON up to a value that is not of the expected form. Which of the two is
met first depends only on the order of the text.

Brackets may be nested 127 deep. Values that nobody asked for are skipped, without that limit.
-/

namespace ProviderSdk.Json

open Decimal (Binary64)
open Text (hexValue?)

inductive ReadError where
  | malformed (index : Nat)
  | mismatch
  deriving DecidableEq, Repr, Inhabited

/-- How the digits of a number that is no integer of 64 bits become binary. -/
inductive NumberRounding where
  /-- As many digits as fit into 64 bits are taken as an integer, which is then multiplied or divided by a
  power of ten. -/
  | stepwise
  | nearest
  deriving DecidableEq, Repr

structure Cursor where
  chars : List Char
  index : Nat
  size : Nat
  depth : Nat
  rounding : NumberRounding

/-- The levels of brackets that a text may have. -/
def depthLimit : Nat := 127

namespace Cursor

def start (text : String) (rounding : NumberRounding) : Cursor :=
  ⟨text.toList, 0, text.length + 1, depthLimit, rounding⟩

/-- The text without its first character. -/
def next (c : Cursor) : Cursor :=
  match c.chars with
  | [] => c
  | a :: rest => { c with chars := rest, index := c.index + a.utf8Size }

/-- A complaint about the character ahead, or about the end. -/
def refuseAhead (c : Cursor) : ReadError :=
  .malformed (if c.chars.isEmpty then c.index else c.index + 1)

def refuseHere (c : Cursor) : ReadError := .malformed c.index

/-- Blank, line break, carriage return and tabulator separate tokens. -/
def isSeparator (a : Char) : Bool := a == ' ' || a == '\n' || a == '\t' || a == '\r'

def skipSeparators (c : Cursor) : Cursor :=
  let skipped := c.chars.takeWhile isSeparator
  { c with chars := c.chars.dropWhile isSeparator, index := c.index + skipped.length }

end Cursor

abbrev Reader (α : Type) := StateT Cursor (Except ReadError) α

namespace Reader

/-- Stops with a complaint about the character ahead. -/
def refuseAhead {α : Type} : Reader α := fun c => .error c.refuseAhead

/-- Stops with a complaint about what has just been read. -/
def refuseHere {α : Type} : Reader α := fun c => .error c.refuseHere

/-- Stops because the value is not of the expected form. -/
def mismatch {α : Type} : Reader α := fun _ => .error .mismatch

def peek? : Reader (Option Char) := fun c => .ok (c.chars.head?, c)

def advance : Reader Unit := fun c => .ok ((), c.next)

/-- The first character of the next token. -/
def peekToken? : Reader (Option Char) := fun c =>
  let c := c.skipSeparators
  .ok (c.chars.head?, c)

def word : List Char → Reader Unit
  | [] => pure ()
  | expected :: rest => do
    match ← peek? with
    | none => refuseHere
    | some a => if a = expected then advance; word rest else refuseAhead

def hexQuad : Reader Nat := fun cur =>
  match cur.chars with
  | a :: b :: c :: d :: _ =>
    match hexValue? a, hexValue? b, hexValue? c, hexValue? d with
    | some a, some b, some c, some d =>
      .ok (((a * 16 + b) * 16 + c) * 16 + d, cur.next.next.next.next)
    | _, _, _, _ => .error (.malformed (cur.index + 4))
  | _ =>
    let bytes := cur.chars.foldr (fun c n => c.utf8Size + n) 0
    .error (.malformed (if 4 ≤ bytes then cur.index + 4 else cur.index + bytes))

def simpleEscape? : Char → Option Char
  | '"' => some '"'
  | '\\' => some '\\'
  | '/' => some '/'
  | 'b' => some '\x08'
  | 'f' => some '\x0c'
  | 'n' => some '\n'
  | 'r' => some '\r'
  | 't' => some '\t'
  | _ => none

/-- Whether a code unit is the first of a surrogate pair. -/
def isHighSurrogate (n : Nat) : Bool := decide (0xD800 ≤ n ∧ n ≤ 0xDBFF)

/-- Whether a code unit is the second of a surrogate pair. -/
def isLowSurrogate (n : Nat) : Bool := decide (0xDC00 ≤ n ∧ n ≤ 0xDFFF)

def pairPart (expected : Char) : Reader Unit := do
  match ← peek? with
  | none => refuseHere
  | some a => if a = expected then advance else refuseAhead

/-- The character of an escape by code units, behind its `u`. -/
def unicodeEscape : Reader Char := do
  let n ← hexQuad
  if isLowSurrogate n then refuseHere
  else if isHighSurrogate n then
    pairPart '\\'
    pairPart 'u'
    let m ← hexQuad
    if isLowSurrogate m then pure (Char.ofNat (0x10000 + (n - 0xD800) * 0x400 + (m - 0xDC00)))
    else refuseHere
  else pure (Char.ofNat n)

/-- The character of an escape, behind its backslash. -/
def escape : Reader Char := do
  match ← peek? with
  | none => refuseHere
  | some 'u' => do advance; unicodeEscape
  | some a =>
    match simpleEscape? a with
    | some c => do advance; pure c
    | none => refuseAhead

/-- The characters up to the closing quote, `read` having been read in reverse. -/
def stringTail : (fuel : Nat) → (read : List Char) → Reader String
  | 0, _ => refuseHere
  | fuel + 1, read => do
    match ← peek? with
    | none => refuseHere
    | some '"' => do advance; pure (String.ofList read.reverse)
    | some '\\' => do
      advance
      let c ← escape
      stringTail fuel (c :: read)
    | some a => if a.toNat < 32 then refuseAhead else do advance; stringTail fuel (a :: read)

def stringBody : Reader String := do stringTail (← get).size []

/-- Reads over the rest of a string. Code units need not pair up here. -/
def skipStringTail : (fuel : Nat) → Reader Unit
  | 0 => refuseHere
  | fuel + 1 => do
    match ← peek? with
    | none => refuseHere
    | some '"' => advance
    | some '\\' => do
      advance
      match ← peek? with
      | none => refuseHere
      | some 'u' => do advance; discard hexQuad; skipStringTail fuel
      | some a => if (simpleEscape? a).isSome then do advance; skipStringTail fuel else refuseAhead
    | some a => if a.toNat < 32 then refuseHere else do advance; skipStringTail fuel

/-- Reads over a string, behind its opening quote. -/
def skipString : Reader Unit := do skipStringTail (← get).size

def wordMax : Nat := Nat.pow 2 64 - 1

def exponentMax : Nat := Nat.pow 2 31 - 1

def digit? : Reader (Option Nat) := do
  match ← peek? with
  | some c => if c.isDigit then do advance; pure (some (c.toNat - 48)) else pure none
  | none => pure none

def countDigits : Reader Nat := fun c =>
  let digits := c.chars.takeWhile Char.isDigit
  .ok (digits.length,
    { c with chars := c.chars.dropWhile Char.isDigit, index := c.index + digits.length })

/-- Powers of ten up to the greatest that binary numbers of 64 bits hold. -/
def powerOfTen (e : Nat) : Binary64 := .ofDecimal false 1 e

/-- The significand scaled by a power of ten, one multiplication or division of at most `10 ^ 308`
at a time. No result stands for a number too large. -/
def scaled? : (steps : Nat) → Binary64 → Int → Option Binary64
  | 0, x, _ => some x
  | steps + 1, x, e =>
    if e.natAbs ≤ 308 then
      if 0 ≤ e then
        let y := x.mul (powerOfTen e.natAbs)
        if y.isFinite then some y else none
      else some (x.div (powerOfTen e.natAbs))
    else if x.isZero then some x
    else if 0 ≤ e then none
    else scaled? steps (x.div (powerOfTen 308)) (e + 308)

/-- The number with the given digits. A number beyond all finite ones is refused. -/
def floatOf (negative : Bool) (significand : Nat) (exponent : Int) : Reader Number := do
  match scaled? 4 (Binary64.ofInt significand) exponent with
  | none => refuseHere
  | some x => pure (.float (if negative then x.negated else x))

def exponentDigits (negative : Bool) (significand : Nat) (start : Int) (negativeExponent : Bool) :
    (fuel : Nat) → (exponent : Nat) → Reader Number
  | 0, _ => refuseHere
  | fuel + 1, exponent => do
    match ← digit? with
    | none => floatOf negative significand (if negativeExponent then start - exponent else start + exponent)
    | some d =>
      if exponentMax < exponent * 10 + d then
        if significand ≠ 0 ∧ ¬ negativeExponent then refuseHere
        else do
          discard countDigits
          pure (.float (.zero negative))
      else exponentDigits negative significand start negativeExponent fuel (exponent * 10 + d)

def exponentPart (negative : Bool) (significand : Nat) (start : Int) : Reader Number := do
  advance
  let negativeExponent ← do
    match ← peek? with
    | some '+' => do advance; pure false
    | some '-' => do advance; pure true
    | _ => pure false
  match ← peek? with
  | none => refuseHere
  | some c =>
    if c.isDigit then do
      advance
      exponentDigits negative significand start negativeExponent (← get).size (c.toNat - 48)
    else refuseAhead

def afterDigits (negative : Bool) (significand : Nat) (exponent : Int) : Reader Number := do
  match ← peek? with
  | some 'e' => exponentPart negative significand exponent
  | some 'E' => exponentPart negative significand exponent
  | _ => floatOf negative significand exponent

/-- The digits behind the point; the first that no longer fits into 64 bits ends the significand. -/
def fractionDigits (negative : Bool) : (fuel significand places : Nat) → (exponent : Int) → Reader Number
  | 0, _, _, _ => refuseHere
  | fuel + 1, significand, places, exponent => do
    match ← peek? with
    | some c =>
      if c.isDigit then
        let significand' := significand * 10 + (c.toNat - 48)
        if wordMax < significand' then do
          discard countDigits
          afterDigits negative significand (exponent - places)
        else do
          advance
          fractionDigits negative fuel significand' (places + 1) exponent
      else if places = 0 then refuseAhead
      else afterDigits negative significand (exponent - places)
    | none => if places = 0 then refuseAhead else afterDigits negative significand (exponent - places)

def fractionPart (negative : Bool) (significand : Nat) (exponent : Int) : Reader Number := do
  advance
  fractionDigits negative (← get).size significand 0 exponent

/-- What follows an integral part that fits into 64 bits. Minus zero and integers below all of 64
bits with a sign are binary. -/
def afterInteger (negative : Bool) (significand : Nat) : Reader Number := do
  match ← peek? with
  | some '.' => fractionPart negative significand 0
  | some 'e' => exponentPart negative significand 0
  | some 'E' => exponentPart negative significand 0
  | _ =>
    if !negative then pure (.int significand)
    else if significand = 0 ∨ Nat.pow 2 63 <
      significand then pure (.float (Binary64.ofInt significand).negated)
    else pure (.int (-(significand : Int)))

/-- What follows an integral part whose further digits, counted in the exponent, do not fit into 64 bits. -/
def afterLongInteger (negative : Bool) (significand : Nat) (exponent : Int) : Reader Number := do
  match ← peek? with
  | some '.' => fractionPart negative significand exponent
  | _ => afterDigits negative significand exponent

def integerDigits (negative : Bool) : (fuel significand : Nat) → Reader Number
  | 0, _ => refuseHere
  | fuel + 1, significand => do
    match ← peek? with
    | some c =>
      if c.isDigit then
        let significand' := significand * 10 + (c.toNat - 48)
        if wordMax < significand' then do
          let dropped ← countDigits
          afterLongInteger negative significand dropped
        else do
          advance
          integerDigits negative fuel significand'
      else afterInteger negative significand
    | none => afterInteger negative significand

/-- A number behind its sign, rounded step by step. -/
def stepwiseNumber (negative : Bool) : Reader Number := do
  match ← peek? with
  | none => refuseHere
  | some '0' => do
    advance
    match ← peek? with
    | some c => if c.isDigit then refuseAhead else afterInteger negative 0
    | none => afterInteger negative 0
  | some c =>
    if c.isDigit then do
      advance
      integerDigits negative (← get).size (c.toNat - 48)
    else refuseAhead

def isNumeral (c : Char) : Bool :=
  c.isDigit || c == '.' || c == 'e' || c == 'E' || c == '+' || c == '-'

def numberBody (negative : Bool) : Reader Number := do
  let before ← get
  let n ← stepwiseNumber negative
  match n, before.rounding with
  | .float x, .nearest =>
    match Decimal.unsigned? (before.chars.takeWhile isNumeral) with
    | some (digits, e) => pure (.float (.ofDecimal negative digits (Decimal.clampExponent digits e)))
    | none => pure (.float x)
  | _, _ => pure n

def skipNumber : Reader Unit := do
  match ← peek? with
  | some '0' => do
    advance
    if ((← peek?).any Char.isDigit) then refuseAhead
  | some c => if c.isDigit then discard countDigits else refuseAhead
  | none => refuseHere
  if (← peek?) = some '.' then do
    advance
    let n ← countDigits
    if n = 0 then refuseAhead
  if (← peek?) = some 'e' ∨ (← peek?) = some 'E' then do
    advance
    if (← peek?) = some '+' ∨ (← peek?) = some '-' then advance
    match ← peek? with
    | some c => if c.isDigit then discard countDigits else refuseAhead
    | none => refuseHere

/-- Refuses the value ahead, which is not of the expected form. A scalar is read first, so that a
broken one is refused as such. -/
def refuseValue {α : Type} : Reader α := do
  match ← peek? with
  | some 'n' => do advance; word "ull".toList; mismatch
  | some 't' => do advance; word "rue".toList; mismatch
  | some 'f' => do advance; word "alse".toList; mismatch
  | some '"' => do advance; discard stringBody; mismatch
  | some '-' => do advance; discard (numberBody true); mismatch
  | some '[' => mismatch
  | some '\x7b' => mismatch
  | some c => if c.isDigit then do discard (numberBody false); mismatch else refuseAhead
  | none => refuseAhead

def text : Reader String := do
  match ← peekToken? with
  | none => refuseAhead
  | some '"' => do advance; stringBody
  | some _ => refuseValue

def bool : Reader Bool := do
  match ← peekToken? with
  | none => refuseAhead
  | some 't' => do advance; word "rue".toList; pure true
  | some 'f' => do advance; word "alse".toList; pure false
  | some _ => refuseValue

/-- A natural number below `bound`, written as an integer. -/
def natBelow (bound : Nat) : Reader Nat := do
  let accept : Number → Reader Nat
    | .int n => if 0 ≤ n ∧ n < bound then pure n.toNat else mismatch
    | .float _ => mismatch
  match ← peekToken? with
  | none => refuseAhead
  | some '-' => do advance; accept (← numberBody true)
  | some c => if c.isDigit then accept (← numberBody false) else refuseValue

/-- A value that may be absent, which is written `null`. -/
def option {α : Type} (read : Reader α) : Reader (Option α) := do
  match ← peekToken? with
  | some 'n' => do advance; word "ull".toList; pure none
  | _ => some <$> read

/-- Reads over an opening bracket, if a level is left. -/
def enter : Reader Unit := fun c =>
  if c.depth = 0 then .error c.refuseAhead else .ok ((), { c.next with depth := c.depth - 1 })

def leave : Reader Unit := fun c => .ok ((), { c.next with depth := c.depth + 1 })

/-- Whether a further item follows in a list of which some have been read or none. -/
def moreItems (isFirst : Bool) : Reader Bool := do
  match ← peekToken? with
  | none => refuseAhead
  | some ']' => pure false
  | some ',' =>
    if isFirst then pure true
    else do
      advance
      match ← peekToken? with
      | some ']' => refuseAhead
      | some _ => pure true
      | none => refuseAhead
  | some _ => if isFirst then pure true else refuseAhead

/-- Whether a further member follows; if so its key is ahead. -/
def moreMembers (isFirst : Bool) : Reader Bool := do
  match ← peekToken? with
  | none => refuseAhead
  | some '\x7d' => pure false
  | some ',' =>
    if isFirst then refuseAhead
    else do
      advance
      match ← peekToken? with
      | some '"' => pure true
      | _ => refuseAhead
  | some c => if isFirst ∧ c = '"' then pure true else refuseAhead

def key : Reader String := do
  advance
  stringBody

def colon : Reader Unit := do
  match ← peekToken? with
  | some ':' => advance
  | _ => refuseAhead

def itemsLoop {α : Type} (read : Reader α) : (fuel : Nat) → (isFirst : Bool) → Reader (List α)
  | 0, _ => refuseHere
  | fuel + 1, isFirst => do
    if ← moreItems isFirst then
      let a ← read
      let rest ← itemsLoop read fuel false
      pure (a :: rest)
    else do
      leave
      pure []

/-- The members of an object up to its bracket, in the order of the text. -/
def membersLoop {α : Type} (read : Reader α) : (fuel : Nat) → (isFirst : Bool) → Reader (List (String × α))
  | 0, _ => refuseHere
  | fuel + 1, isFirst => do
    if ← moreMembers isFirst then
      let k ← key
      colon
      let a ← read
      let rest ← membersLoop read fuel false
      pure ((k, a) :: rest)
    else do
      leave
      pure []

def list {α : Type} (read : Reader α) : Reader (List α) := do
  match ← peekToken? with
  | none => refuseAhead
  | some '[' => do enter; itemsLoop read (← get).size true
  | some _ => refuseValue

/-- An object with arbitrary keys; its members come out sorted by key. -/
def map {α : Type} (read : Reader α) : Reader (List (String × α)) := do
  match ← peekToken? with
  | none => refuseAhead
  | some '\x7b' => do enter; Members.sorted <$> membersLoop read (← get).size true
  | some _ => refuseValue

/-- Any value of at most `levels` nested brackets. -/
def valueWithin : (levels : Nat) → Reader Json
  | 0 => refuseHere
  | levels + 1 => do
    match ← peekToken? with
    | none => refuseAhead
    | some 'n' => do advance; word "ull".toList; pure .null
    | some 't' => do advance; word "rue".toList; pure (.bool true)
    | some 'f' => do advance; word "alse".toList; pure (.bool false)
    | some '"' => do advance; .str <$> stringBody
    | some '-' => do advance; .num <$> numberBody true
    | some '[' => .arr <$> list (valueWithin levels)
    | some '\x7b' => .obj <$> map (valueWithin levels)
    | some c => if c.isDigit then .num <$> numberBody false else refuseAhead

/-- Any value. The limit on brackets, not that of the recursion, is what stops a deep one. -/
def value : Reader Json := valueWithin (depthLimit + 2)

/-- Reads over any number of values and brackets; `brackets` are those still open, each marked as
that of a list or of an object. -/
def skipFrom : (fuel : Nat) → (brackets : List Bool) → Reader Unit
  | 0, _ => refuseHere
  | fuel + 1, brackets => do
    let skipKey : Reader Unit := do
      match ← peekToken? with
      | some '"' => advance
      | _ => refuseAhead
      skipString
      colon
    let rec close : List Bool → Reader (List Bool)
      | [] => pure []
      | isList :: rest => do
        match ← peekToken? with
        | some ',' => do
          advance
          if !isList then skipKey
          pure (isList :: rest)
        | some ']' => if isList then do advance; close rest else refuseAhead
        | some '\x7d' => if isList then refuseAhead else do advance; close rest
        | _ => refuseAhead
    let goOn (brackets : List Bool) : Reader Unit := do
      match ← close brackets with
      | [] => pure ()
      | brackets => skipFrom fuel brackets
    match ← peekToken? with
    | none => refuseAhead
    | some 'n' => do advance; word "ull".toList; goOn brackets
    | some 't' => do advance; word "rue".toList; goOn brackets
    | some 'f' => do advance; word "alse".toList; goOn brackets
    | some '"' => do advance; skipString; goOn brackets
    | some '-' => do advance; skipNumber; goOn brackets
    | some '[' => do
      advance
      match ← peekToken? with
      | some ']' => do advance; goOn brackets
      | none => refuseAhead
      | _ => skipFrom fuel (true :: brackets)
    | some '\x7b' => do
      advance
      match ← peekToken? with
      | some '\x7d' => do advance; goOn brackets
      | none => refuseAhead
      | _ => do skipKey; skipFrom fuel (false :: brackets)
    | some c => if c.isDigit then do skipNumber; goOn brackets else refuseAhead

def skipValue : Reader Unit := do skipFrom (← get).size []

/-- Nothing but separators is left. -/
def finish : Reader Unit := do
  match ← peekToken? with
  | none => pure ()
  | some _ => refuseAhead

def run {α : Type} (read : Reader α) (text : String) (rounding : NumberRounding) : Except ReadError α :=
  match (do let a ← read; finish; pure a : Reader α) (Cursor.start text rounding) with
  | .ok (a, _) => .ok a
  | .error e => .error e

end Reader

def parse (text : String) : Except ReadError Json :=
  Reader.run Reader.value text .stepwise

end ProviderSdk.Json
