import ProviderSdk.CSharpLibrary.ProjectFiles
import ProviderSdk.GoLibrary.Utilities
import ProviderSdk.Proofs.Defaults.Programs
import ProviderSdk.PythonLibrary.PackageFiles
import ProviderSdk.TypeScriptLibrary.PackageFiles

/-!
# Helpers that read environment variables

The helpers of every library as programs, and what they give: the first variable that is set
decides, and if its text is no truth value the result is nothing, whatever the later variables hold.
TypeScript takes a variable that is set to the empty text for one that is not set.
-/

namespace ProviderSdk.Defaults

open Code

def truthOf? (raw : String) : Option Bool :=
  if trueTexts.contains raw then some true else if falseTexts.contains raw then some false else none

def trueList : TextList := ⟨"trueValues", trueTexts⟩

def falseList : TextList := ⟨"falseValues", falseTexts⟩

/-- The text of the first variable that is set to one that passes a test. -/
def firstSet? (g : Guard) (env : Environment) (names : List String) : Option String :=
  names.findSome? (fun name => (env name).filter (fun raw => g.passes (.text raw)))

/-- A helper that gives the text of the first variable that passes a test. -/
def searching (name loop value : String) (g : Guard) : Helper where
  name := name
  kind := .text
  body := [.each loop [.found g value (.envVariable loop) [.give (.name value)]], .give .nothing]

/-- A helper that looks the text that another gives up among the texts of truth values. -/
def reading (name search : String) : Helper where
  name := name
  kind := .bool
  body := [.found .present "s" (.call search .passed)
    [.among "s" trueList [.give (.bool true)], .among "s" falseList [.give (.bool false)]], .give .nothing]

def converting (name search conversion : String) : Helper where
  name := name
  kind := .bool
  body := [.found .present "value" (.call search .passed)
    [.found .present "b" (.call conversion (.held "value")) [.give (.name "b")]], .give .nothing]

section

variable {env : Environment} {known : String → List String → Value} {arguments : List String}

theorem passes_ofText? (g : Guard) (raw : Option String) :
    (if g.passes (.ofText? raw) then some (Value.ofText? raw) else none) =
      (raw.filter (fun raw => g.passes (.text raw))).map Value.text := by
  cases raw with
  | none => cases g <;> rfl
  | some raw =>
    rw [Option.filter_some, Value.ofText?]
    split <;> rfl

theorem run_searching (name loop value : String) (g : Guard) :
    (Machine.mk env known arguments).run (searching name loop value g).body =
      .ofText? (firstSet? g env arguments) := by
  have hbody (a : String) :
      runAll ⟨env, known, arguments⟩ (Function.update (fun _ => .nothing) loop (.text a))
        [.found g value (.envVariable loop) [.give (.name value)]] =
      ((env a).filter (fun raw => g.passes (.text raw))).map Value.text := by
    rw [← passes_ofText?]
    simp only [runAll, Statement.run, Term.value, Function.update_self, Value.textOrEmpty, Option.or_none]
  have hrun : runAll ⟨env, known, arguments⟩ (fun _ => .nothing) (searching name loop value g).body =
      ((firstSet? g env arguments).map Value.text).or (some .nothing) := by
    rw [firstSet?, List.map_findSome?]
    change (arguments.findSome? _).or _ = _
    simp only [hbody]
    rfl
  rw [Machine.run, hrun]
  cases firstSet? g env arguments <;> rfl

/-- The meaning of a text comes from two lists, of which the first is asked first. -/
theorem run_reading {name search : String} {raw : Option String} (h : known search arguments = .ofText? raw) :
    (Machine.mk env known arguments).run (reading name search).body = .ofBool? (raw.bind truthOf?) := by
  simp only [Machine.run, reading, runAll, Statement.run, Term.value, Arguments.texts, h]
  cases raw with
  | none => rfl
  | some raw =>
    simp only [Value.ofText?, Guard.passes, Function.update_self, Value.textOrEmpty, Option.bind_some,
      truthOf?, trueList, falseList]
    cases trueTexts.contains raw with
    | true => rfl
    | false => cases falseTexts.contains raw <;> rfl

theorem run_converting {name search conversion : String} {raw : Option String}
    (h : known search arguments = .ofText? raw)
    (hconversion : ∀ raw, known conversion [raw] = .ofBool? (truthOf? raw)) :
    (Machine.mk env known arguments).run (converting name search conversion).body =
      .ofBool? (raw.bind truthOf?) := by
  simp only [Machine.run, converting, runAll, Statement.run, Term.value, Arguments.texts, h]
  cases raw with
  | none => rfl
  | some raw =>
    simp only [Value.ofText?, Guard.passes, Function.update_self, Value.textOrEmpty, hconversion,
      Option.bind_some]
    cases truthOf? raw <;> rfl

end

/-- How a library reads environment variables: its language, the two helpers for truth values, and
what the language itself has. -/
structure Reader where
  dialect : Dialect
  search : Helper
  truth : Helper
  known : String → List String → Value := fun _ _ => .nothing

def Reader.machine (r : Reader) (env : Environment) : Machine where
  environment := env
  helpers := callHelpers env r.known [r.search, r.truth]

/-- The helper for truth values gives the truth value of the first variable that passes a test. -/
def Reader.ReadsFirst (r : Reader) (g : Guard) : Prop :=
  ∀ (env : Environment) (names : List String),
    (r.machine env).helpers r.truth.name names = .ofBool? ((firstSet? g env names).bind truthOf?)

theorem readsFirst_reading (d : Dialect) (search loop value truth : String) (g : Guard) :
    Reader.ReadsFirst ⟨d, searching search loop value g, reading truth search, fun _ _ => .nothing⟩ g := by
  intro env names
  have hsearch : callHelpers env (fun _ _ => .nothing) [searching search loop value g] search names =
      .ofText? (firstSet? g env names) :=
    (callHelpers_last env _ [] (searching search loop value g) names).trans
      (run_searching search loop value g)
  exact (callHelpers_last env _ [searching search loop value g] (reading truth search) names).trans
    (run_reading hsearch)

end ProviderSdk.Defaults

namespace ProviderSdk.PythonLibrary

open Code Defaults

/-- How Python writes programs. -/
def dialect : Dialect where
  nothing := "None"
  trueWord := "True"
  falseWord := "False"
  envVariable x := s!"os.getenv({x})"
  qualifier := "utilities."
  quoted := singleQuoted
  passed := "(*args)"
  found g x _ text body := line s!"{x} = {text}" ++
    suite (match g with
      | .present => s!"if {x} is not None:"
      | .truthy => s!"if {x}:") body
  among x list body := suite (s!"if {x} in [" ++ ", ".intercalate (list.texts.map singleQuoted) ++ "]:") body
  each x body := suite s!"for {x} in args:" body
  give _ _ text := line s!"return {text}"
  helper name _ body := suite s!"def {name}(*args):" body

def reader : Reader where
  dialect := dialect
  search := searching "get_env" "v" "value" .present
  truth := reading "get_env_bool" "get_env"

theorem steps_reader :
    dialect.steps reader.search = Utilities.getEnv ∧ dialect.steps reader.truth = Utilities.getEnvBool :=
  ⟨rfl, rfl⟩

theorem readsFirst_reader : reader.ReadsFirst .present := readsFirst_reading _ _ _ _ _ _

end ProviderSdk.PythonLibrary

namespace ProviderSdk.TypeScriptLibrary

open Code Defaults

def readType : EnvKind → String
  | .bool => "boolean"
  | .text => "string"
  | _ => "number"

/-- How TypeScript writes programs. -/
def dialect : Dialect where
  nothing := "undefined"
  trueWord := "true"
  falseWord := "false"
  envVariable x := s!"process.env[{x}]"
  qualifier := "utilities."
  quoted := doubleQuoted
  passed := "(...vars)"
  found g x _ text body := line s!"const {x} = {text};" ++
    block (match g with
      | .present => s!"if ({x} !== undefined)"
      | .truthy => s!"if ({x})") body
  among x list body :=
    block ("if ([" ++ ", ".intercalate (list.texts.map doubleQuoted) ++ s!"].includes({x}))") body
  each x body := block s!"for (const {x} of vars)" body
  give _ _ text := line s!"return {text};"
  helper name kind body :=
    block s!"export function {name}(...vars: string[]): {readType kind} | undefined" body

def reader : Reader where
  dialect := dialect
  search := searching "getEnv" "v" "value" .truthy
  truth := reading "getEnvBoolean" "getEnv"

theorem steps_reader :
    dialect.steps reader.search = Utilities.getEnv ∧ dialect.steps reader.truth = Utilities.getEnvBoolean :=
  ⟨rfl, rfl⟩

theorem readsFirst_reader : reader.ReadsFirst .truthy := readsFirst_reading _ _ _ _ _ _

end ProviderSdk.TypeScriptLibrary

namespace ProviderSdk.CSharpLibrary

open Code Defaults

def readType : EnvKind → String
  | .bool => "bool"
  | .int => "int"
  | .float => "double"
  | .text => "string"

/-- How C# writes programs. -/
def dialect : Dialect where
  nothing := "null"
  trueWord := "true"
  falseWord := "false"
  envVariable x := s!"Environment.GetEnvironmentVariable({x})"
  qualifier := "Utilities."
  quoted := doubleQuoted
  passed := "(names)"
  found g x _ text body := line s!"var {x} = {text};" ++
    whenever (match g with
      | .present => s!"{x} != null"
      | .truthy => s!"!string.IsNullOrEmpty({x})") body
  among x list body := whenever s!"Array.IndexOf({list.name}, {x}) != -1" body
  each x body := blockBelow s!"foreach (var {x} in names)" body
  give _ _ text := line s!"return {text};"
  helper name kind body := blockBelow s!"public static {readType kind}? {name}(params string[] names)" body

def declaration (list : TextList) : String :=
  s!"static string[] {list.name} = " ++ Utilities.textArray list.texts ++ ";"

def reader : Reader where
  dialect := dialect
  search := searching "GetEnv" "n" "value" .present
  truth := reading "GetEnvBoolean" "GetEnv"

theorem steps_reader :
    dialect.steps reader.search = Utilities.getEnv ∧ dialect.steps reader.truth = Utilities.getEnvBoolean ∧
      lines [declaration trueList, declaration falseList] = Utilities.truthTexts :=
  ⟨rfl, rfl, rfl⟩

theorem readsFirst_reader : reader.ReadsFirst .present := readsFirst_reading _ _ _ _ _ _

end ProviderSdk.CSharpLibrary

namespace ProviderSdk.GoLibrary

open Code Defaults

/-- The type of what is read, and the value that stands with a result that is not `ok`. -/
def readType : EnvKind → String × String
  | .bool => ("bool", "false")
  | .int => ("int", "0")
  | .float => ("float64", "0")
  | .text => ("string", "\"\"")

/-- How Go writes programs: a value comes with a second one that says whether there is one. -/
def dialect : Dialect where
  nothing := "nil"
  trueWord := "true"
  falseWord := "false"
  envVariable x := s!"os.LookupEnv({x})"
  qualifier := ""
  quoted := doubleQuoted
  passed := "(vars...)"
  found _ x t text body := whenever
    (match t with
      | .call _ (.held _) => s!"{x}, err := {text}; err == nil"
      | _ => s!"{x}, ok := {text}; ok") body
  among x list body := whenever s!"slices.Contains({list.name}, {x})" body
  each x body := block s!"for _, {x} := range vars" body
  give kind t text := line (match t with
    | .nothing => s!"return {(readType kind).2}, false"
    | _ => s!"return {text}, true")
  helper name kind body := block s!"func {name}(vars ...string) ({(readType kind).1}, bool)" body

def parseBool : List String → Value
  | [raw] =>
    if ["1", "t", "T", "TRUE", "true", "True"].contains raw then .bool true
    else if ["0", "f", "F", "FALSE", "false", "False"].contains raw then .bool false
    else .nothing
  | _ => .nothing

def reader : Reader where
  dialect := dialect
  search := searching "getEnv" "v" "value" .present
  truth := converting "getEnvBool" "getEnv" "strconv.ParseBool"
  known := Function.update (fun _ _ => .nothing) "strconv.ParseBool" parseBool

theorem steps_reader : dialect.steps reader.search = Utilities.getEnv.steps ∧
    dialect.steps reader.truth =
      (Utilities.reading "getEnvBool" "bool" "b" "ParseBool(value)" "false").steps :=
  ⟨rfl, rfl⟩

/-- The texts that are accepted are those of the other languages. -/
theorem parseBool_eq (raw : String) : parseBool [raw] = .ofBool? (truthOf? raw) := by
  have hcontains {texts others : List String} (hperm : texts.Perm others) :
      texts.contains raw = others.contains raw := by
    rw [Bool.eq_iff_iff, List.contains_iff_mem, List.contains_iff_mem, hperm.mem_iff]
  have htrue : ["1", "t", "T", "TRUE", "true", "True"].contains raw = trueTexts.contains raw :=
    hcontains (by decide)
  have hfalse : ["0", "f", "F", "FALSE", "false", "False"].contains raw = falseTexts.contains raw :=
    hcontains (by decide)
  rw [parseBool, truthOf?, htrue, hfalse]
  split
  · rfl
  · split <;> rfl

theorem readsFirst_reader : reader.ReadsFirst .present := by
  intro env names
  have hsearch : callHelpers env reader.known [reader.search] "getEnv" names =
      .ofText? (firstSet? .present env names) :=
    (callHelpers_last env _ [] reader.search names).trans (run_searching "getEnv" "v" "value" .present)
  have hparse (raw : String) : callHelpers env reader.known [reader.search] "strconv.ParseBool" [raw] =
      .ofBool? (truthOf? raw) := by
    rw [← parseBool_eq]
    rfl
  exact (callHelpers_last env _ [reader.search] reader.truth names).trans (run_converting hsearch hparse)

end ProviderSdk.GoLibrary
