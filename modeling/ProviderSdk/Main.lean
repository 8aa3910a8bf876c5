import ProviderSdk.CommandLine.Session

/-!
# The program

Runs a command line on the files that it may touch: they are read into a disk, the session runs on
it, and what it left there is written back.
-/

namespace ProviderSdk.CommandLine

partial def readNode (path : String) : IO DiskNode := do
  let place ← IO.FS.realPath path
  if ← place.isDir then
    let mut entries := []
    for entry in ← place.readDir do
      entries := DiskNode.insertEntry entry.fileName (← readNode entry.path.toString) entries
    return .directory entries
  else return .file (← IO.FS.readBinFile place)

def addFrom (d : Disk) (p : Path) : IO Disk := do
  match d.locate p with
  | .error _ => return d
  | .ok place =>
    try return d.putAt place (← readNode p.text)
    catch _ => return d

/-- The paths that a command may read or write once its settings are known. -/
def pathsOf (s : Settings) : List Path :=
  s.schema.toList ++ s.docsDirectory.toList ++ [s.overlaysDirectory] ++ s.languages.map s.outputDirectory

def sourcesOf : Command → Option Sources
  | .generate sources _ => some sources
  | .check sources => some sources
  | _ => none

/-- The disk with all that a command line may touch, and whether standard input is read. -/
def prepare (args : List String) (d : Disk) : IO (Disk × Bool) := do
  match (Command.read args).toOption.bind sourcesOf with
  | none => return (d, false)
  | some sources =>
    let d ← addFrom d (sources.configuration.getD Configuration.fileName)
    match sources.settings d with
    | .error _ => return (d, false)
    | .ok settings => return (← (pathsOf settings).foldlM addFrom d, settings.schema.isNone)

def writeBack (before after : Disk) : IO Unit := do
  for (names, node) in after.root.descendants [] do
    let path := "/" ++ "/".intercalate names
    match node, before.root.get? names with
    | .file bytes, some (.file old) => if bytes != old then IO.FS.writeBinFile path bytes
    | .file bytes, _ => IO.FS.writeBinFile path bytes
    | .directory _, none => IO.FS.createDirAll path
    | .directory _, some _ => pure ()

/-- Runs a command line on the files around it. What it returns is the exit code. -/
def execute (args : List String) : IO UInt32 := do
  let here := ((Path.mk (← IO.FS.realPath ".").toString).segments).filter (· != "")
  let (disk, needsInput) ← prepare args ⟨DiskNode.empty.put .empty here, here⟩
  let input ← if needsInput then (← IO.getStdin).readToEnd else pure ""
  let (outcome, after) := (run args input).run disk
  writeBack disk after
  (← IO.getStdout).putStr outcome.output
  (← IO.getStderr).putStr outcome.complaints
  return UInt32.ofNat outcome.exitCode

end ProviderSdk.CommandLine

def main (args : List String) : IO UInt32 := ProviderSdk.CommandLine.execute args
