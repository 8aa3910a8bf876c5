import ProviderSdk.Disk.Path

/-!
# Disks

A disk is a tree of directories and files with a working directory. All operations are functions
from disks to disks; what cannot be done is refused with the cause that a file system gives. Paths
and the names in them are bounded in length, and hold no NUL.
-/

namespace ProviderSdk

inductive DiskNode where
  | file (bytes : ByteArray)
  | directory (entries : List (String × DiskNode))
  deriving Inhabited

inductive DiskError where
  | notFound
  | notDirectory
  | isDirectory
  | alreadyExists
  | notText
  | notFile
  | nameTooLong
  | hasNul
  deriving DecidableEq, Repr

/-- What is said about a refused operation. -/
def DiskError.message : DiskError → String
  | notFound => "No such file or directory (os error 2)"
  | notDirectory => "Not a directory (os error 20)"
  | isDirectory => "Is a directory (os error 21)"
  | alreadyExists => "File exists (os error 17)"
  | notText => "stream did not contain valid UTF-8"
  | notFile => "the source path is neither a regular file nor a symlink to a regular file"
  | nameTooLong => "File name too long (os error 36)"
  | hasNul => "file name contained an unexpected NUL byte"

namespace DiskNode

def empty : DiskNode := .directory []

def isDirectory : DiskNode → Bool
  | .directory _ => true
  | .file _ => false

def isFile : DiskNode → Bool
  | .directory _ => false
  | .file _ => true

def entries : DiskNode → List (String × DiskNode)
  | .directory entries => entries
  | .file _ => []

def get? : DiskNode → List String → Option DiskNode
  | node, [] => some node
  | .directory entries, name :: rest => (entries.lookup name).bind (fun node => node.get? rest)
  | .file _, _ :: _ => none
  termination_by structural _ names => names

/-- The entries with one put in; names stay sorted. -/
def insertEntry (name : String) (node : DiskNode) : List (String × DiskNode) → List (String × DiskNode)
  | [] => [(name, node)]
  | (k, v) :: rest =>
    if name = k then (name, node) :: rest
    else if name < k then (name, node) :: (k, v) :: rest
    else (k, v) :: insertEntry name node rest

/-- The node with another put in at a list of names. Directories on the way are made if they are missing. -/
def put (node leaf : DiskNode) : (names : List String) → DiskNode
  | [] => leaf
  | name :: rest =>
    .directory (insertEntry name (put ((node.entries.lookup name).getD empty) leaf rest) node.entries)
  termination_by structural names => names

mutual

/-- All nodes below a node, each with the names that lead to it, in the order of the names. -/
def descendants (here : List String) : DiskNode → List (List String × DiskNode)
  | .file _ => []
  | .directory entries => entryDescendants here entries

/-- All nodes at or below entries, each with the names that lead to it. -/
def entryDescendants (here : List String) : List (String × DiskNode) → List (List String × DiskNode)
  | [] => []
  | (name, node) :: rest =>
    (here ++ [name], node) :: (descendants (here ++ [name]) node ++ entryDescendants here rest)

end

end DiskNode

/-- A tree of directories and files, and the directory in it that relative paths start from. -/
structure Disk where
  root : DiskNode
  workingDirectory : List String
  deriving Inhabited

namespace Disk

/-- The number of bytes that a path has to stay below. -/
def pathBound : Nat := 4096

def nameLimit : Nat := 255

/-- Why the text of a path leads nowhere on any disk. -/
def pathFault? (p : Path) : Option DiskError :=
  if p.text.toList.contains '\x00' then some .hasNul
  else if p.text = "" then some .notFound
  else if pathBound ≤ p.text.utf8ByteSize then some .nameTooLong
  else none

/-- The place that segments lead to from an existing directory. Only the last name may be missing. -/
def walk (root : DiskNode) : (here : List String) → (segments : List String) → Except DiskError (List String)
  | here, [] => .ok here
  | here, segment :: rest =>
    if segment = "" || segment = "." then walk root here rest
    else if segment = ".." then walk root here.dropLast rest
    else if nameLimit < segment.utf8ByteSize then .error .nameTooLong
    else
      let next := here ++ [segment]
      match root.get? next with
      | some (.directory _) => walk root next rest
      | some (.file _) => if rest.isEmpty then .ok next else .error .notDirectory
      | none => if rest.isEmpty then .ok next else .error .notFound

def locate (d : Disk) (p : Path) : Except DiskError (List String) :=
  match pathFault? p with
  | some e => .error e
  | none => walk d.root (if p.isAbsolute then [] else d.workingDirectory) p.segments

def node (d : Disk) (p : Path) : Except DiskError DiskNode := do
  let place ← d.locate p
  match d.root.get? place with
  | some node => .ok node
  | none => .error .notFound

def isFile (d : Disk) (p : Path) : Bool :=
  match d.node p with
  | .ok node => node.isFile
  | .error _ => false

def isDirectory (d : Disk) (p : Path) : Bool :=
  match d.node p with
  | .ok node => node.isDirectory
  | .error _ => false

def readBytes (d : Disk) (p : Path) : Except DiskError ByteArray := do
  match ← d.node p with
  | .file bytes => .ok bytes
  | .directory _ => .error .isDirectory

def readText (d : Disk) (p : Path) : Except DiskError String := do
  match String.fromUTF8? (← d.readBytes p) with
  | some text => .ok text
  | none => .error .notText

def putAt (d : Disk) (place : List String) (node : DiskNode) : Disk :=
  { d with root := d.root.put node place }

def makeDirectory (d : Disk) (p : Path) : Except DiskError Disk :=
  match pathFault? p with
  | some e => .error e
  | none => do
    let trimmed : Path := ⟨String.ofList (p.text.toList.reverse.dropWhile (· == '/')).reverse⟩
    let place ← d.locate (if trimmed.text = "" then p else trimmed)
    match d.root.get? place with
    | some _ => .error .alreadyExists
    | none => .ok (d.putAt place .empty)

/-- Whether a path names something in a directory as another directory, whatever is found there. -/
def expectsDirectory (d : Disk) (p : Path) : Bool :=
  (pathFault? p).isNone && p.hasEndSlash && p.parent?.any (fun q => q.text = "" || d.isDirectory q)

/-- Writes a file, which may replace another. -/
def writeBytes (d : Disk) (p : Path) (bytes : ByteArray) : Except DiskError Disk := do
  let place ← if d.expectsDirectory p then .error .isDirectory else d.locate p
  match d.root.get? place with
  | some (.directory _) => .error .isDirectory
  | _ => .ok (d.putAt place (.file bytes))

/-- Writes a text file, which may replace another. -/
def writeText (d : Disk) (p : Path) (text : String) : Except DiskError Disk := d.writeBytes p text.toUTF8

/-- Copies a file. The target is emptied before the source is read, so that a file copied onto itself ends up
empty. -/
def copy (d : Disk) (source target : Path) : Except DiskError Disk := do
  match ← d.node source with
  | .directory _ => .error .notFile
  | .file _ => do
    let emptied ← d.writeBytes target .empty
    emptied.writeBytes target (← emptied.readBytes source)

/-- A path below the working directory in the form in which listings show it. -/
def shownPath (names : List String) : String := "/".intercalate names

/-- All files and directories below a directory, with the paths that lead to them from there. -/
def listing (d : Disk) (p : Path) : List (String × DiskNode) :=
  match d.node p with
  | .ok node => (node.descendants []).map (fun (names, node) => (shownPath names, node))
  | .error _ => []

end Disk

/-- An action on a disk, which may stop half-way: what it did before stays done. -/
abbrev OnDisk (ε α : Type) := ExceptT ε (StateM Disk) α

namespace OnDisk

def change {ε : Type} (f : Disk → Except DiskError Disk) (wrap : DiskError → ε) : OnDisk ε Unit := do
  match f (← getThe Disk) with
  | .ok d => set d
  | .error e => throw (wrap e)

/-- Makes a directory with the directories that lead to it; `fuel` bounds their number. -/
def makeDirectoriesFrom : (fuel : Nat) → Path → OnDisk DiskError Unit
  | 0, _ => throw .notFound
  | fuel + 1, p => do
    if p.text = "" then return
    let orPresent (e : DiskError) : OnDisk DiskError Unit := do
      if (← getThe Disk).isDirectory p then return else throw e
    match (← getThe Disk).makeDirectory p with
    | .ok d => set d
    | .error .notFound =>
      match p.parent? with
      | none => throw .notFound
      | some parent =>
        makeDirectoriesFrom fuel parent
        match (← getThe Disk).makeDirectory p with
        | .ok d => set d
        | .error e => orPresent e
    | .error e => orPresent e

def makeDirectories (p : Path) : OnDisk DiskError Unit := makeDirectoriesFrom (p.segments.length + 1) p

/-- Runs an action, and tells the causes of its stopping in other terms. -/
def mapError {ε ε' α : Type} (f : ε → ε') (action : OnDisk ε α) : OnDisk ε' α :=
  ExceptT.adapt f action

end OnDisk

end ProviderSdk
