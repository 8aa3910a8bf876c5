import ProviderSdk.Disk.Tree

/-!
# Plans of output

A plan is what is going to be written below an output directory: generated files with their texts,
and hand-written files to be copied. No two of them have the same path. Writing checks first that
everything to be copied is there.
-/

namespace ProviderSdk

structure PlannedFile where
  path : Path
  content : String
  deriving DecidableEq, Repr, Inhabited

/-- A hand-written file to be copied. -/
structure PlannedCopy where
  path : Path
  source : Path
  deriving DecidableEq, Repr, Inhabited

/-- Why something cannot be added to a plan. -/
inductive PlanError where
  | overlayMeetsFile (source file : Path)
  | overlayMeetsOverlay (source existing : Path)
  | fileTwice (file : Path)
  deriving DecidableEq, Repr

def PlanError.message : PlanError → String
  | overlayMeetsFile source file =>
    s!"overlay file '{source.text}' conflicts with generated file '{file.text}'"
  | overlayMeetsOverlay source existing =>
    s!"overlay file '{source.text}' conflicts with overlay file '{existing.text}'"
  | fileTwice file => s!"file '{file.text}' was generated twice"

/-- Generated files and copies, in the order in which they were added. -/
structure Plan where
  files : List PlannedFile := []
  overlays : List PlannedCopy := []
  deriving DecidableEq, Repr, Inhabited

inductive WriteError where
  | overlayMissing (source : Path)
  | directory (path : Path) (cause : DiskError)
  | file (path : Path) (cause : DiskError)
  | copy (source target : Path) (cause : DiskError)
  deriving DecidableEq, Repr

/-- What is said about a plan that was not written, the outermost message first. -/
def WriteError.chain : WriteError → List String
  | overlayMissing source => [s!"overlay source '{source.text}' does not exist"]
  | directory path cause => [s!"failed to create directory '{path.text}'", cause.message]
  | file path cause => [s!"failed to write '{path.text}'", cause.message]
  | copy source target cause =>
    [s!"failed to copy '{source.text}' to '{target.text}'", cause.message]

namespace Plan

def file? (p : Plan) (path : Path) : Option PlannedFile := p.files.find? (fun f => f.path.same path)

def overlay? (p : Plan) (path : Path) : Option PlannedCopy := p.overlays.find? (fun o => o.path.same path)

def addFile (p : Plan) (f : PlannedFile) : Except PlanError Plan :=
  match p.overlay? f.path with
  | some o => .error (.overlayMeetsFile o.source f.path)
  | none =>
    match p.file? f.path with
    | some _ => .error (.fileTwice f.path)
    | none => .ok { p with files := p.files ++ [f] }

def addOverlay (p : Plan) (o : PlannedCopy) : Except PlanError Plan :=
  match p.file? o.path with
  | some f => .error (.overlayMeetsFile o.source f.path)
  | none =>
    match p.overlay? o.path with
    | some existing => .error (.overlayMeetsOverlay o.source existing.source)
    | none => .ok { p with overlays := p.overlays ++ [o] }

/-- Makes the directories that lead to a target. -/
def makeParents (target : Path) : OnDisk WriteError Unit :=
  match target.parent? with
  | none => pure ()
  | some parent => (OnDisk.makeDirectories parent).mapError (WriteError.directory parent)

/-- Writes a generated file below an output directory. -/
def writeFile (root : Path) (f : PlannedFile) : OnDisk WriteError Unit := do
  let target := root.join f.path
  makeParents target
  OnDisk.change (fun d => d.writeText target f.content) (WriteError.file target)

/-- Copies a file below an output directory. -/
def writeCopy (root : Path) (o : PlannedCopy) : OnDisk WriteError Unit := do
  let target := root.join o.path
  makeParents target
  OnDisk.change (fun d => d.copy o.source target) (WriteError.copy o.source target)

/-- What has been written and copied, below the output directory. -/
structure Written where
  files : List Path
  copies : List Path
  deriving DecidableEq, Repr, Inhabited

/-- What a plan writes and copies if nothing fails. -/
def written (p : Plan) : Written := ⟨p.files.map (·.path), p.overlays.map (·.path)⟩

/-- Writes all that is planned below an output directory. Nothing is written if something to be copied is
missing. -/
def write (p : Plan) (root : Path) : OnDisk WriteError Written := do
  let disk ← getThe Disk
  match p.overlays.find? (fun o => !disk.isFile o.source) with
  | some o => throw (.overlayMissing o.source)
  | none =>
    p.files.forM (writeFile root)
    p.overlays.forM (writeCopy root)
    return p.written

end Plan

end ProviderSdk
