import ProviderSdk.Decimal.Layout
import ProviderSdk.Json.Printer
import ProviderSdk.Package.Property

/-!
# Defaults in generated code

Generated code fills a missing value in from environment variables and from a literal. What is read
and what stands in reserve is the same in all languages; a style says how one of them writes it.
-/

namespace ProviderSdk

/-- What generated code makes of the text of an environment variable. -/
inductive EnvKind where
  | bool
  | int
  | float
  | text
  deriving DecidableEq, Repr

def EnvKind.ofType : TypeRef → EnvKind
  | .bool => .bool
  | .int => .int
  | .float => .float
  | _ => .text

structure DefaultExpression where
  kind : EnvKind
  envVariables : List String
  literal : Option Literal
  deriving DecidableEq, Repr

/-- The default of a property, if generated code can fill it in. -/
def Property.defaultExpression? (p : Property) : Option DefaultExpression :=
  match p.default with
  | some d => if d.isRenderable then some ⟨.ofType p.type, d.envVars, d.literal⟩ else none
  | none => none

def readsEnvironment (ps : List Property) : Bool :=
  ps.any (fun p => p.default.any (fun d => !d.envVars.isEmpty))

/-- Numbers with the point in its place, whole ones without a fraction. -/
def positionalNumbers : Decimal.Layout where
  positional _ := true
  wholeFraction := false
  plusOnExponent := false
  tie := .up

/-- Numbers with the point in its place from `1e-4` up to `1e16`, whole ones with a fraction, and
with an exponent beyond. -/
def scientificNumbers : Decimal.Layout where
  positional e := decide (-4 ≤ e ∧ e < 16)
  wholeFraction := true
  plusOnExponent := false
  tie := .up

structure DefaultStyle where
  trueWord : String
  falseWord : String
  numbers : Decimal.Layout
  helper : EnvKind → String
  variableName : String → String

namespace DefaultStyle

def literal (style : DefaultStyle) : Literal → String
  | .bool true => style.trueWord
  | .bool false => style.falseWord
  | .int n => toString n
  | .float x => style.numbers.render x
  | .string s => Json.quoted s

def lookUp (style : DefaultStyle) (e : DefaultExpression) : String :=
  style.helper e.kind ++ "(" ++ ", ".intercalate (e.envVariables.map style.variableName) ++ ")"

/-- What may stand for the value, in the order in which it is tried. -/
def alternatives (style : DefaultStyle) (e : DefaultExpression) : List String :=
  (if e.envVariables.isEmpty then [] else [style.lookUp e]) ++ (e.literal.map style.literal).toList

end DefaultStyle

/-- The texts that generated code reads as true. -/
def trueTexts : List String := ["1", "t", "T", "true", "TRUE", "True"]

/-- The texts that generated code reads as false. -/
def falseTexts : List String := ["0", "f", "F", "false", "FALSE", "False"]

def doubleQuoted (s : String) : String := "\"" ++ s ++ "\""

def singleQuoted (s : String) : String := "'" ++ s ++ "'"

end ProviderSdk
