import ProviderSdk.Text.Split

/-!
# File paths

A path is a text with slashes. Two paths are the same if their components are: repeated slashes, a
slash at the end and inner dots make no difference, while a dot at the start and double dots do.
Joining keeps the text as it is.
-/

namespace ProviderSdk

structure Path where
  text : String
  deriving DecidableEq, Repr, Inhabited

inductive PathComponent where
  | root
  | current
  | parent
  | name (s : String)
  deriving DecidableEq, Repr

namespace Path

/-- What stands between the slashes of a path. -/
def segments (p : Path) : List String := Text.split '/' p.text

/-- Whether the path starts at the root of the file system. -/
def isAbsolute (p : Path) : Bool := p.text.startsWith "/"

/-- The component of a segment behind the first; empty segments and dots are none. -/
def innerComponent? (segment : String) : Option PathComponent :=
  if segment = "" ∨ segment = "." then none
  else if segment = ".." then some .parent
  else some (.name segment)

def components (p : Path) : List PathComponent :=
  match p.segments with
  | [] => []
  | first :: rest =>
    let start : List PathComponent :=
      if first = "" then (if p.isAbsolute then [.root] else [])
      else if first = "." then [.current]
      else (innerComponent? first).toList
    start ++ rest.filterMap innerComponent?

def same (p q : Path) : Bool := p.components == q.components

/-- A path below another; an absolute path stays as it is. -/
def join (base part : Path) : Path :=
  if part.isAbsolute then part
  else if base.text = "" || base.text.endsWith "/" then ⟨base.text ++ part.text⟩
  else ⟨base.text ++ "/" ++ part.text⟩

/-- A path below another, given by its text. -/
def child (base : Path) (part : String) : Path := base.join ⟨part⟩

def isSilent (segment : String) : Bool := segment == "" || segment == "."

/-- Segments without the silent ones at their end. -/
def trimSegments (segments : List String) : List String := (segments.reverse.dropWhile isSilent).reverse

/-- The path without its last component. -/
def parent? (p : Path) : Option Path :=
  match p.segments with
  | [] => none
  | first :: rest =>
    match (trimSegments rest).reverse with
    | [] => if p.text = "" || p.isAbsolute then none else some ⟨""⟩
    | _ :: before =>
      match trimSegments before.reverse with
      | [] => some ⟨if first = "" then "/" else first⟩
      | kept => some ⟨"/".intercalate (first :: kept)⟩

/-- Whether slashes follow the name at the end of the path. -/
def hasEndSlash (p : Path) : Bool :=
  p.text.endsWith "/" &&
    (p.segments.reverse.dropWhile (· == "")).head?.any (fun segment => segment != "." && segment != "..")

/-- The last component, if it is a name. -/
def fileName? (p : Path) : Option String :=
  match p.components.getLast? with
  | some (.name s) => some s
  | _ => none

/-- The extension of a file name: what follows its last dot, unless the name starts with it. -/
def extension? (p : Path) : Option String := do
  let name ← p.fileName?
  let reversed := name.toList.reverse
  let (ext, stem) ← Text.cutAt? (· == '.') reversed
  if stem.isEmpty || name = ".." then none else some (String.ofList ext.reverse)

end Path

instance : Coe String Path := ⟨Path.mk⟩

end ProviderSdk
