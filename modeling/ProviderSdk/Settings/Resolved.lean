import ProviderSdk.Compile.Run
import ProviderSdk.Settings.Preferences

/-!
# Settings

What a run of the program goes by, made from the preferences of its configuration and of its command line.
-/

namespace ProviderSdk

structure Settings where
  package : Option String
  version : Version
  /-- The provider document; if there is none it comes from standard input. -/
  schema : Option Path
  out : Option Path
  overlaysDirectory : Path
  docsDirectory : Option Path
  languages : List Language
  deriving Inhabited

inductive SettingsError where
  | version (e : VersionError)
  deriving DecidableEq, Repr

/-- What is said about preferences that make no settings. -/
def SettingsError.message : SettingsError → String
  | version e => "invalid --version: " ++ e.message

/-- The settings that preferences make. Of a target that is named more than once the first mention counts. -/
def Preferences.settings (p : Preferences) : Except SettingsError Settings := do
  let version ← match p.version with
    | some text => (Version.parse text).mapError SettingsError.version
    | none => .ok Version.initial
  .ok {
    package := p.package
    version := version
    schema := if p.readsStandardInput then none else p.schema
    out := p.out
    overlaysDirectory := p.overlaysDirectory
    docsDirectory := p.docs
    languages := p.languages.eraseDups }

namespace Settings

/-- The directory that the library for a target is written to. An output directory that was asked
for serves a single target as it is; several targets get a directory each. -/
def outputDirectory (s : Settings) (l : Language) : Path :=
  match s.out with
  | some out => if s.languages.length = 1 then out else out.child l.name
  | none => Preferences.outDefault.child l.name

/-- What a run for a target, or for none, depends on. -/
def runOptions (s : Settings) (language : Option Language) : RunOptions where
  package := s.package
  version := s.version
  overlaysDirectory := s.overlaysDirectory
  docsDirectory := s.docsDirectory
  language := language

end Settings

end ProviderSdk
