import ProviderSdk.CommandLine.Options
import ProviderSdk.Settings.Preferences

/-!
# Commands

The commands of the program, and how a command line names one.
-/

namespace ProviderSdk.CommandLine

inductive Shell where
  | bash
  | elvish
  | fish
  | powershell
  | zsh
  deriving DecidableEq, Repr

namespace Shell

def all : List Shell := [.bash, .elvish, .fish, .powershell, .zsh]

def name : Shell → String
  | .bash => "bash"
  | .elvish => "elvish"
  | .fish => "fish"
  | .powershell => "powershell"
  | .zsh => "zsh"

end Shell

structure Sources where
  /-- The configuration; if none is named the one in the working directory is taken. -/
  configuration : Option Path
  preferences : Preferences
  denyWarnings : Bool
  deriving DecidableEq, Repr

inductive Command where
  | generate (sources : Sources) (dryRun : Bool)
  | check (sources : Sources)
  | languages
  | completions (shell : Shell)
  deriving DecidableEq, Repr

def globalOptions : List OptionForm := [
  ⟨"verbose", some 'v', .counted⟩,
  ⟨"quiet", some 'q', .flag⟩,
  ⟨"help", some 'h', .ending .help⟩]

def schemaOptions : List OptionForm := [
  ⟨"schema", some 's', .path⟩,
  ⟨"config", some 'c', .path⟩,
  ⟨"package", some 'p', .text⟩,
  ⟨"docs", none, .path⟩,
  ⟨"deny-warnings", none, .flag⟩]

def outputOptions : List OptionForm := [
  ⟨"out", some 'o', .path⟩,
  ⟨"overlays", none, .path⟩,
  ⟨"version", none, .text⟩,
  ⟨"dry-run", none, .flag⟩]

def commandNames : List String := ["generate", "check", "languages", "completions"]

def helpName : String := "help"

/-- A word that ends the reading, as another command starts with it. -/
def leftIf (known : Bool) : WordRole := if known then .left else .refused

def takenIf (known : Bool) : WordRole := if known then .taken else .refused

/-- What may stand in front of the name of a command. -/
def programForm : CommandForm where
  options := globalOptions ++ [⟨"version", some 'V', .ending .version⟩]
  role := fun _ word => leftIf (commandNames.contains word || word == helpName)

def generateForm : CommandForm where
  options := globalOptions ++ schemaOptions ++ outputOptions
  role := fun _ word => takenIf (Language.parse word).isOk

def checkForm : CommandForm where
  options := globalOptions ++ schemaOptions
  role := fun _ _ => .refused

def languagesForm : CommandForm where
  options := globalOptions
  role := fun _ _ => .refused

def completionsForm : CommandForm where
  options := globalOptions
  role := fun before word => takenIf (before.isEmpty && Shell.all.any (fun s => s.name == word))

/-- What is given, unless it contradicts itself. -/
def consistent (g : Given) : Except Early Given :=
  if g.has "quiet" && g.has "verbose" then .error .misuse else .ok g

/-- What arguments give to the last command on a command line. -/
def CommandForm.readAll (form : CommandForm) (args : List String) : Except Early Given := do
  let (g, _) ← form.read {} args
  consistent g

def Given.sources (g : Given) : Sources where
  configuration := (g.value? "config").map Path.mk
  denyWarnings := g.has "deny-warnings"
  preferences := {
    package := g.value? "package"
    version := g.value? "version"
    schema := (g.value? "schema").map Path.mk
    out := (g.value? "out").map Path.mk
    overlays := (g.value? "overlays").map Path.mk
    docs := (g.value? "docs").map Path.mk
    languages := g.words.filterMap (fun word => (Language.parse word).toOption) }

def readHelp {α : Type} : List String → Except Early α
  | [] => .error .help
  | [name] => .error (if commandNames.contains name || name == helpName then .help else .misuse)
  | _ => .error .misuse

def readCommand (name : String) (args : List String) : Except Early Command := do
  if name = "generate" then
    let g ← generateForm.readAll args
    .ok (.generate g.sources (g.has "dry-run"))
  else if name = "check" then
    let g ← checkForm.readAll args
    .ok (.check g.sources)
  else if name = "languages" then
    let _ ← languagesForm.readAll args
    .ok .languages
  else if name = "completions" then
    let g ← completionsForm.readAll args
    match Shell.all.find? (fun s => g.words.contains s.name) with
    | some shell => .ok (.completions shell)
    | none => .error .misuse
  else readHelp args

/-- The command that a command line names. What stands in front of the command is judged last. -/
def Command.read (args : List String) : Except Early Command := do
  let (g, rest) ← programForm.read {} args
  match rest with
  | [] => .error .misuse
  | name :: rest =>
    let command ← readCommand name rest
    let _ ← consistent g
    .ok command

end ProviderSdk.CommandLine
