import ProviderSdk.Library.Target
import ProviderSdk.Operation.Failure
import ProviderSdk.Report.Entry

/-!
# Generating a library

First a run for the target leaves a package; then the library of the package is written below a
directory, or its files are only listed.
-/

namespace ProviderSdk

/-- A package for a target, with the warnings that arose on the way, each once. -/
structure Prepared where
  package : Package
  warnings : List String
  deriving Inhabited

def Document.prepare (d : Document) (disk : Disk) (s : Settings) (l : Language) :
    Except OperationFailure Prepared := do
  let c ← (Compilation.run disk d (s.runOptions (some l))).mapError OperationFailure.run
  let package ← c.takePackage.mapError (OperationFailure.unresolved l)
  .ok ⟨package, (c.warnings.map (·.message)).eraseDups⟩

inductive Generated where
  | written (w : Plan.Written)
  | listed (files : List Path)
  deriving DecidableEq, Repr

structure GenerationReport where
  language : Language
  package : String
  version : String
  directory : Path
  result : Generated
  deriving DecidableEq, Repr

def GenerationReport.entries (r : GenerationReport) : List ReportEntry :=
  (match r.result with
    | .written w =>
      let count := counted (w.files.length + w.copies.length) "file"
      [.line s!"✓ Generated {r.language.name} package {r.package} v{r.version} ({count})",
        .pair "  Output" r.directory.text] ++
        (if w.copies.isEmpty then [] else .heading "  Overlays" :: w.copies.map (fun p => .addition p.text))
    | .listed files =>
      .divider s!"{r.language.name} → {r.directory.text} (dry run)" :: files.map (fun p => .item p.text)) ++
    [.gap]

def Package.generationReport (p : Package) (l : Language) (directory : Path) (result : Generated) :
    GenerationReport :=
  ⟨l, p.name, p.version, directory, result⟩

def Package.list (p : Package) (l : Language) (directory : Path) : Except OperationFailure GenerationReport :=
  ((p.planFor l).mapError OperationFailure.listing).map (fun plan =>
    p.generationReport l directory (.listed (plan.preview.map (·.path))))

def Package.generate (p : Package) (l : Language) (directory : Path) :
    OnDisk OperationFailure GenerationReport :=
  match p.planFor l with
  | .error e => throw (.planning directory e)
  | .ok plan => do
    let w ← (plan.write directory).mapError (OperationFailure.writing directory)
    pure (p.generationReport l directory (.written w))

/-- Writes the library of a package below a directory, or on a dry run lists its files. -/
def Package.emit (p : Package) (l : Language) (directory : Path) (dryRun : Bool) :
    OnDisk OperationFailure GenerationReport :=
  if dryRun then liftExcept (p.list l directory) else p.generate l directory
where
  liftExcept {ε α : Type} : Except ε α → OnDisk ε α
    | .ok a => pure a
    | .error e => throw e

end ProviderSdk
