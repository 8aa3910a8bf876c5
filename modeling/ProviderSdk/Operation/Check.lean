import ProviderSdk.Operation.Failure
import ProviderSdk.Report.Entry

/-!
# Checking a provider

A check is a run for no target whose package is counted and not written.
-/

namespace ProviderSdk

structure CheckReport where
  package : String
  version : String
  /-- The counts are zero if no package came out. -/
  modules : Nat := 0
  resources : Nat := 0
  dataSources : Nat := 0
  configVariables : Nat := 0
  errors : List String
  warnings : List String
  deriving DecidableEq, Repr, Inhabited

namespace CheckReport

def isOk (r : CheckReport) (denyWarnings : Bool) : Bool :=
  r.errors.isEmpty && !(denyWarnings && !r.warnings.isEmpty)

def entries (r : CheckReport) : List ReportEntry :=
  r.warnings.map .warning ++ r.errors.map .error ++
    if r.errors.isEmpty then
      (if r.warnings.isEmpty then [] else [.gap]) ++
        [.line s!"✓ {r.package} v{r.version} is valid", .gap,
          .pair "  Modules" (toString r.modules), .pair "  Resources" (toString r.resources),
          .pair "  Functions" (toString r.dataSources),
          .pair "  Config" (counted r.configVariables "variable")] ++
        (if r.warnings.isEmpty then [] else [.pair "  Warnings" (toString r.warnings.length)])
    else
      let count := counted r.errors.length "error"
      [.line s!"✗ {r.package} v{r.version} has {count}"]

end CheckReport

def Compilation.checkReport (c : Compilation) : CheckReport :=
  let found : CheckReport := {
    package := c.packageName
    version := c.options.version.render
    errors := c.errors.map (·.message)
    warnings := c.warnings.map (·.message) }
  match c.package with
  | none => found
  | some p =>
    { found with
      modules := p.modules.length
      resources := p.resources.length
      dataSources := p.dataSources.length
      configVariables := (p.config?.map (fun m => m.configVariables.length)).getD 0 }

/-- Checks a provider. Errors about single items are found, and do not make the check fail. -/
def Document.check (d : Document) (disk : Disk) (s : Settings) : Except OperationFailure CheckReport :=
  ((Compilation.run disk d (s.runOptions none)).mapError OperationFailure.validation).map
    Compilation.checkReport

end ProviderSdk
