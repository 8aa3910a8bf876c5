import ProviderSdk.Compile.Assembly

/-!
# Runs

A run takes a document through three phases: normalize pairs the schema with its overrides, resolve
decides about every item, assemble puts the members into modules. A phase needs what the phase
before it has left. Errors about single items do not stop a run; they make it impossible to take the
package from it.
-/

namespace ProviderSdk

structure RunOptions where
  package : Option String := none
  version : Version := Version.initial
  overlaysDirectory : Path := "overlays"
  docsDirectory : Option Path := none
  language : Option Language := none
  deriving Inhabited

inductive Phase where
  | normalize
  | resolve
  | assemble
  deriving DecidableEq, Repr

namespace Phase

def all : List Phase := [.normalize, .resolve, .assemble]

def name : Phase → String
  | .normalize => "normalize"
  | .resolve => "resolve"
  | .assemble => "assemble"

def description : Phase → String
  | .normalize => "Pair provider schema fields with their overrides"
  | .resolve => "Resolve names, types, optionality, docs and defaults"
  | .assemble => "Group members and overlays into modules"

end Phase

structure Compilation where
  document : Document
  options : RunOptions
  paired : Option PairedProvider := none
  resolved : Option ResolvedProvider := none
  package : Option Package := none
  diagnostics : List Diagnostic := []
  deriving Inhabited

/-- Why a run stops, or why no package can be taken from it. -/
inductive CompileError where
  | packageNameMissing
  | notNormalized
  | notResolved
  | notAssembled
  | broken (package item : String) (cause : ResolveError)
  | items (errors : ErrorList)
  deriving DecidableEq, Repr

def CompileError.message : CompileError → String
  | packageNameMissing => "missing required input: package name"
  | notNormalized => "provider was not normalized; did the normalize phase run?"
  | notResolved => "provider was not resolved; did the resolve phase run?"
  | notAssembled => "package was not assembled; did the assemble phase run?"
  | broken package item cause => s!"{package}:{item}: {cause.message}"
  | items errors => errors.render

namespace Compilation

def start (document : Document) (options : RunOptions) : Compilation := { document, options }

/-- The name of the package: the option if it is not empty, and else the document's name. -/
def packageName (c : Compilation) : String :=
  match c.options.package with
  | some name => if name = "" then c.document.name else name
  | none => c.document.name

def errors (c : Compilation) : List Diagnostic := c.diagnostics.filter Diagnostic.isError

def warnings (c : Compilation) : List Diagnostic := c.diagnostics.filter Diagnostic.isWarning

def report (c : Compilation) (diagnostics : List Diagnostic) : Compilation :=
  { c with diagnostics := c.diagnostics ++ diagnostics }

/-- Pairs the schema with its overrides. -/
def normalize (c : Compilation) : Compilation :=
  let (paired, warnings) := c.document.paired
  { c.report (warnings.map (fun w => Diagnostic.warning "normalize" w.message)) with paired := some paired }

def resolveContext (c : Compilation) (disk : Disk) : ResolveContext where
  package := c.packageName
  itemPrefix := c.document.resourcePrefix
  docs := c.options.docsDirectory.map (DocLibrary.ofDirectory disk)

def resolve (disk : Disk) (c : Compilation) : Except CompileError Compilation :=
  match c.paired with
  | none => .error .notNormalized
  | some paired =>
    let resolution := paired.resolve (c.resolveContext disk)
    match resolution.failures.find? (fun (_, e) => e.isFatal) with
    | some (item, e) => .error (.broken c.packageName item e)
    | none =>
      let errors := resolution.failures.map
        (fun (item, e) => Diagnostic.itemError "resolve" c.packageName item e.message)
      .ok { c.report (resolution.diagnostics ++ errors) with resolved := some resolution.resolved }

/-- Puts the resolved members into a package. -/
def assemble (c : Compilation) : Except CompileError Compilation :=
  match c.resolved with
  | none => .error .notResolved
  | some resolved =>
    let (package, diagnostics) := c.document.assemble c.packageName c.options.version
      c.options.overlaysDirectory c.options.language resolved
    .ok { c.report diagnostics with package := some package }

def runPhase (disk : Disk) (c : Compilation) : Phase → Except CompileError Compilation
  | .normalize => .ok c.normalize
  | .resolve => c.resolve disk
  | .assemble => c.assemble

/-- Runs all phases over a document. -/
def run (disk : Disk) (document : Document) (options : RunOptions) : Except CompileError Compilation :=
  let c := start document options
  if c.packageName = "" then .error .packageNameMissing else Phase.all.foldlM (runPhase disk) c

def takePackage (c : Compilation) : Except CompileError Package :=
  if c.errors.isEmpty then
    match c.package with
    | some package => .ok package
    | none => .error .notAssembled
  else .error (.items ⟨c.errors.map (fun d => d.message)⟩)

end Compilation

end ProviderSdk
