import ProviderSdk.CommandLine.Command
import ProviderSdk.Operation.Check
import ProviderSdk.Operation.Generation
import ProviderSdk.Schema.DocumentReading
import ProviderSdk.Settings.Configuration

/-!
# Sessions

A session runs one command line on a disk. What it shows and how it ends depend on nothing but the
command line, the disk and the text on standard input.
-/

namespace ProviderSdk.CommandLine

/-- Why a session ends without success. -/
inductive SessionFailure where
  | load (e : LoadError)
  | operation (e : OperationFailure)
  | unsound
  deriving DecidableEq, Repr

/-- What a session has shown, and why it failed if it did. -/
structure Transcript where
  entries : List ReportEntry
  failure : Option SessionFailure
  deriving DecidableEq, Repr

namespace Transcript

/-- A session that failed before it showed anything. -/
def failed (e : SessionFailure) : Transcript := ⟨[], some e⟩

def after (entries : List ReportEntry) (t : Transcript) : Transcript :=
  { t with entries := entries ++ t.entries }

end Transcript

/-- What a session needs to know before it starts to work. -/
def Sources.settings (s : Sources) (disk : Disk) : Except SessionFailure Settings := do
  let configuration ← (match s.configuration with
    | some path => (Configuration.ofFile disk path).map some
    | none => Configuration.discover disk ".").mapError SessionFailure.load
  ((s.preferences.laidOver (configuration.getD {})).settings).mapError
    (fun e => .operation (.settings e))

def standardInput : String := "<stdin>"

def documentFor (s : Settings) (disk : Disk) (input : String) : Except SessionFailure Document :=
  let source : Except LoadError SourceText :=
    match s.schema with
    | some path => SourceText.ofFile disk path
    | none => .ok ⟨input, standardInput⟩
  (source.bind Document.load).mapError SessionFailure.load

def Sources.load (s : Sources) (disk : Disk) (input : String) (needsTarget : Bool) :
    Except SessionFailure (Settings × Document) := do
  let settings ← s.settings disk
  if needsTarget && settings.languages.isEmpty then .error (.load (.missingInput "target language"))
  else .ok (settings, ← documentFor settings disk input)

def checkSession (s : Sources) (disk : Disk) (input : String) : Transcript :=
  let report := do
    let (settings, document) ← s.load disk input false
    (document.check disk settings).mapError SessionFailure.operation
  match report with
  | .error e => .failed e
  | .ok report => ⟨report.entries, if report.isOk s.denyWarnings then none else some .unsound⟩

/-- Generates the libraries for some targets, one after the other, up to the first that fails. A
warning that has been shown for one target is not shown for the next. -/
def generateAll (document : Document) (settings : Settings) (denyWarnings dryRun : Bool) :
    (shown : List String) → List Language → StateM Disk Transcript
  | _, [] => pure ⟨[], none⟩
  | shown, l :: rest => do
    match document.prepare (← get) settings l with
    | .error e => pure (.failed (.operation e))
    | .ok prepared =>
      let new := prepared.warnings.filter (fun w => !shown.contains w)
      let warnings := new.map ReportEntry.warning
      if denyWarnings && !prepared.warnings.isEmpty then
        pure ⟨warnings, some (.operation (.warningsDenied prepared.warnings.length l))⟩
      else
        match ← (prepared.package.emit l (settings.outputDirectory l) dryRun).run with
        | .error e => pure ⟨warnings, some (.operation e)⟩
        | .ok report => do
          let further ← generateAll document settings denyWarnings dryRun (shown ++ new) rest
          pure (further.after (warnings ++ report.entries))

def generateSession (s : Sources) (dryRun : Bool) (input : String) : StateM Disk Transcript := do
  match s.load (← get) input true with
  | .error e => pure (.failed e)
  | .ok (settings, document) => generateAll document settings s.denyWarnings dryRun [] settings.languages

def padded (width : Nat) (s : String) : String := String.ofList (s.toList.rightpad width ' ')

def languageEntries : List ReportEntry :=
  let width := (Language.all.map (fun l => l.name.length)).foldl max 0
  Language.all.map (fun l => .line (padded width l.name ++ "  " ++ l.description))

/-- Runs a command. Every shell is given the names of the commands to complete. -/
def Command.session (input : String) : Command → StateM Disk Transcript
  | .generate sources dryRun => generateSession sources dryRun input
  | .check sources => do return checkSession sources (← get) input
  | .languages => pure ⟨languageEntries, none⟩
  | .completions _ => pure ⟨commandNames.map .line, none⟩

structure Outcome where
  exitCode : Nat
  output : String
  complaints : String
  deriving DecidableEq, Repr

def programVersion : String := "tfgen 0.5.0"

/-- What is told about the use of the program. -/
def usage : String :=
  "Usage: tfgen [-v]... [-q] <generate|check|languages|completions|help> [ARGUMENTS]"

def setIn (s : String) : String := "\n      ".intercalate (Text.split '\n' s)

def SessionFailure.text : SessionFailure → String
  | .load e =>
    "\n".intercalate ([e.code, "", "  × " ++ e.message] ++ (e.help?.map ("  help: " ++ ·)).toList) ++ "\n"
  | .operation e => "Error: \n" ++ String.join (e.chain.map (fun m => "   " ++ setIn m ++ "\n"))
  | .unsound => ""

def Transcript.outcome (t : Transcript) : Outcome where
  exitCode := if t.failure.isSome then 1 else 0
  output := ReportEntry.stream false t.entries
  complaints := ReportEntry.stream true t.entries ++ ((t.failure.map SessionFailure.text).getD "")

def Early.outcome : Early → Outcome
  | .misuse => ⟨2, "", usage ++ "\n"⟩
  | .help => ⟨0, usage ++ "\n", ""⟩
  | .version => ⟨0, programVersion ++ "\n", ""⟩

def run (args : List String) (input : String) : StateM Disk Outcome :=
  match Command.read args with
  | .error e => pure e.outcome
  | .ok command => do return (← command.session input).outcome

end ProviderSdk.CommandLine
