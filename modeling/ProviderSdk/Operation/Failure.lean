import ProviderSdk.Library.Emission
import ProviderSdk.Settings.Resolved

/-!
# Failed operations

Why an operation gives up, with what is said about it.
-/

namespace ProviderSdk

inductive OperationFailure where
  | settings (e : SettingsError)
  | validation (e : CompileError)
  | run (e : CompileError)
  | unresolved (language : Language) (e : CompileError)
  | listing (e : EmitError)
  | planning (directory : Path) (e : EmitError)
  | writing (directory : Path) (e : WriteError)
  | warningsDenied (count : Nat) (language : Language)
  deriving DecidableEq, Repr

/-- What is said about a directory that a library cannot be generated into. -/
def notGenerated (directory : Path) : String := s!"Failed to generate code into {directory.text}"

/-- What is said about a failed operation, the outermost message first. -/
def OperationFailure.chain : OperationFailure → List String
  | settings e => [e.message]
  | validation e => ["Validation failed", e.message]
  | run e => ["Pipeline failed", e.message]
  | unresolved language e => [s!"Failed to resolve the {language.name} package", e.message]
  | listing e => "Failed to render code" :: e.chain
  | planning directory e => notGenerated directory :: e.chain
  | writing directory e => notGenerated directory :: e.chain
  | warningsDenied count language =>
    [toString count ++ " warning(s) while generating " ++ language.name ++
      "; refusing to continue with --deny-warnings"]

end ProviderSdk
