import Mathlib.Logic.Function.Basic
import ProviderSdk.Code.Step
import ProviderSdk.Library.Default
import ProviderSdk.Values.Default

/-!
# Programs in generated libraries

The small language in which the helpers of generated libraries read environment variables: what its
programs mean, and how each language writes them. A statement gives a value or lets the next one go
on. Names in a program are texts that stand for themselves between quotes, so that what is written
is what is meant.
-/

namespace ProviderSdk.Defaults

open Code

inductive Value where
  /-- No value: `None`, `undefined`, `null`, or a result that is not `ok`. -/
  | nothing
  | bool (b : Bool)
  | text (s : String)
  deriving DecidableEq, Repr

namespace Value

def ofBool? : Option Bool → Value
  | some b => .bool b
  | none => .nothing

def ofText? : Option String → Value
  | some s => .text s
  | none => .nothing

def json? : Value → Option Json
  | .nothing => none
  | .bool b => some (.bool b)
  | .text s => some (.str s)

end Value

inductive Guard where
  | present
  /-- The value counts as true: neither nothing nor false nor the empty text. -/
  | truthy
  deriving DecidableEq, Repr

def Guard.passes : Guard → Value → Bool
  | _, .nothing => false
  | .present, _ => true
  | .truthy, .bool b => b
  | .truthy, .text s => !s.isEmpty

def Guard.choose (g : Guard) : List Value → Value
  | [] => .nothing
  | [last] => last
  | first :: rest => if g.passes first then first else g.choose rest

/-- Whether a character stands for itself between quotes: it is neither a quote nor a backslash, is
no control character and does not end a line. -/
def standsForItself (c : Char) : Bool :=
  decide (32 ≤ c.toNat) && !(['"', '\'', '\\', '\u007f', '\u0085', '\u2028', '\u2029', '\ufeff'].contains c)

/-- Whether all characters of a text stand for themselves between quotes. -/
def isPlain (s : String) : Bool := s.toList.all standsForItself

structure PlainText where
  text : String
  plain : isPlain text = true

inductive Arguments where
  | passed
  | held (x : String)
  | given (texts : List PlainText)

inductive Term where
  | nothing
  | bool (b : Bool)
  | name (x : String)
  | envVariable (x : String)
  | call (helper : String) (arguments : Arguments)

structure TextList where
  name : String
  texts : List String

inductive Statement where
  | found (g : Guard) (x : String) (t : Term) (body : List Statement)
  | among (x : String) (list : TextList) (body : List Statement)
  | each (x : String) (body : List Statement)
  | give (t : Term)

/-- A helper, which reads environment variables as values of a kind. -/
structure Helper where
  name : String
  kind : EnvKind
  body : List Statement

structure Machine where
  environment : Environment
  helpers : String → List String → Value
  arguments : List String := []

abbrev Store := String → Value

def Value.textOrEmpty : Value → String
  | .text s => s
  | _ => ""

def Arguments.texts (m : Machine) (s : Store) : Arguments → List String
  | .passed => m.arguments
  | .held x => [(s x).textOrEmpty]
  | .given texts => texts.map PlainText.text

def Term.value (m : Machine) (s : Store) : Term → Value
  | .nothing => .nothing
  | .bool b => .bool b
  | .name x => s x
  | .envVariable x => .ofText? (m.environment (s x).textOrEmpty)
  | .call helper arguments => m.helpers helper (arguments.texts m s)

mutual

def Statement.run (m : Machine) (s : Store) : Statement → Option Value
  | .found g x t body =>
    if g.passes (t.value m s) then runAll m (Function.update s x (t.value m s)) body else none
  | .among x list body => if list.texts.contains (s x).textOrEmpty then runAll m s body else none
  | .each x body => m.arguments.findSome? (fun a => runAll m (Function.update s x (.text a)) body)
  | .give t => some (t.value m s)
  termination_by structural statement => statement

def runAll (m : Machine) (s : Store) : List Statement → Option Value
  | [] => none
  | first :: rest => (first.run m s).or (runAll m s rest)
  termination_by structural statements => statements

end

/-- What a program gives that starts without names. -/
def Machine.run (m : Machine) (body : List Statement) : Value :=
  (runAll m (fun _ => .nothing) body).getD .nothing

def Machine.value (m : Machine) (t : Term) : Value := t.value m (fun _ => .nothing)

/-- What helpers give, each of which may call those before it and what the language itself has. -/
def callHelpers (environment : Environment) (known : String → List String → Value) (helpers : List Helper) :
    String → List String → Value :=
  helpers.foldl
    (fun known h =>
      Function.update known h.name (fun arguments => (Machine.mk environment known arguments).run h.body))
    known

/-- The last of several helpers runs where those before it can be called. -/
theorem callHelpers_last (environment : Environment) (known : String → List String → Value)
    (helpers : List Helper) (h : Helper) (arguments : List String) :
    callHelpers environment known (helpers ++ [h]) h.name arguments =
      (Machine.mk environment (callHelpers environment known helpers) arguments).run h.body := by
  rw [callHelpers, List.foldl_append, List.foldl_cons, List.foldl_nil, Function.update_self]
  rfl

structure Dialect where
  nothing : String
  trueWord : String
  falseWord : String
  envVariable : String → String
  qualifier : String
  quoted : String → String
  passed : String
  found : Guard → String → Term → String → List Step → List Step
  among : String → TextList → List Step → List Step
  each : String → List Step → List Step
  give : EnvKind → Term → String → List Step
  helper : String → EnvKind → List Step → List Step

namespace Dialect

variable (d : Dialect)

def call (helper : String) : Arguments → String
  | .passed => helper ++ d.passed
  | .held x => helper ++ "(" ++ x ++ ")"
  | .given texts =>
    d.qualifier ++ helper ++ "(" ++ ", ".intercalate (texts.map (fun s => d.quoted s.text)) ++ ")"

def term : Term → String
  | .nothing => d.nothing
  | .bool true => d.trueWord
  | .bool false => d.falseWord
  | .name x => x
  | .envVariable x => d.envVariable x
  | .call helper arguments => d.call helper arguments

mutual

def statement (kind : EnvKind) : Statement → List Step
  | .found g x t body => d.found g x t (d.term t) (statements kind body)
  | .among x list body => d.among x list (statements kind body)
  | .each x body => d.each x (statements kind body)
  | .give t => d.give kind t (d.term t)
  termination_by structural statement => statement

def statements (kind : EnvKind) : List Statement → List Step
  | [] => []
  | first :: rest => statement kind first ++ statements kind rest
  termination_by structural statements => statements

end

def steps (h : Helper) : List Step := d.helper h.name h.kind (d.statements h.kind h.body)

end Dialect

end ProviderSdk.Defaults
