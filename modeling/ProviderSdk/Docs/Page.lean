import ProviderSdk.Disk.Tree
import ProviderSdk.Json.Value
import ProviderSdk.Text.Blank

/-!
# Documentation pages

The documentation of a resource or data source is a Markdown page. Its first paragraph after the
title describes the item; bullets below the headings for arguments and attributes describe fields,
each with the indented lines that follow it.
-/

namespace ProviderSdk

inductive DocKind where
  | resource
  | dataSource
  deriving DecidableEq, Repr

def DocKind.directory : DocKind → String
  | .resource => "r"
  | .dataSource => "d"

structure DocPage where
  description : String := ""
  arguments : List (String × String) := []
  attributes : List (String × String) := []
  deriving DecidableEq, Repr, Inhabited

namespace DocPage

def field? (p : DocPage) (key : String) : Option String :=
  (p.arguments.lookup key).or (p.attributes.lookup key)

def completed (entries others : List (String × String)) : List (String × String) :=
  others.foldl (fun acc (k, v) => if (acc.lookup k).isSome then acc else Json.insertMember k v acc) entries

def merge (p other : DocPage) (arguments attributes : Bool) : DocPage :=
  { p with
    arguments := if arguments then completed p.arguments other.arguments else p.arguments
    attributes := if attributes then completed p.attributes other.attributes else p.attributes }

inductive Section where
  | preamble
  | description
  | arguments
  | attributes
  | other
  deriving DecidableEq, Repr

/-- The line without blanks at its ends. -/
def trimmed (line : List Char) : List Char := Text.dropEndBlanks (Text.dropBlanks line)

def headingSection (heading : List Char) : Section :=
  let title := String.ofList (trimmed heading)
  if title = "Argument Reference" || title = "Arguments Reference" then .arguments
  else if title = "Attributes Reference" || title = "Attribute Reference" then .attributes
  else .other

def bullet? (line : List Char) : Option (String × String) := do
  let rest ← Text.afterStart? "* `".toList line
  let (key, rest) ← Text.cutAt? (· == '`') rest
  let text := match Text.dropBlanks rest with
    | '-' :: text => text
    | ':' :: text => text
    | _ => rest
  some (String.ofList key, String.ofList (trimmed text))

structure ReadState where
  page : DocPage := {}
  part : Section := .preamble
  description : List String := []
  lastKey : Option String := none
  deriving Inhabited

def continueEntry (key text : String) (entries : List (String × String)) : List (String × String) :=
  entries.map (fun (k, v) => if k = key then (k, v ++ " " ++ text) else (k, v))

/-- The entries of a section after a line, and the key that indented lines continue. -/
def readEntry (line text : List Char) (lastKey : Option String) (entries : List (String × String)) :
    List (String × String) × Option String :=
  match bullet? text with
  | some (key, words) => (Json.insertMember key words entries, some key)
  | none =>
    if text.isEmpty then (entries, none)
    else match lastKey, line.head?.any Text.isBlank with
      | some key, true => (continueEntry key (String.ofList text) entries, some key)
      | _, _ => (entries, lastKey)

/-- The state after a line that belongs to the page itself. -/
def readLine (s : ReadState) (line : List Char) : ReadState :=
  let text := trimmed line
  match Text.afterStart? "## ".toList text with
  | some heading => { s with part := headingSection heading, lastKey := none }
  | none =>
    if (Text.afterStart? "# ".toList text).isSome && s.part == .preamble then
      { s with part := .description }
    else match s.part with
      | .preamble => s
      | .other => s
      | .description =>
        if text.isEmpty then (if s.description.isEmpty then s else { s with part := .other })
        else { s with description := String.ofList text :: s.description }
      | .arguments =>
        let (entries, key) := readEntry line text s.lastKey s.page.arguments
        { s with page := { s.page with arguments := entries }, lastKey := key }
      | .attributes =>
        let (entries, key) := readEntry line text s.lastKey s.page.attributes
        { s with page := { s.page with attributes := entries }, lastKey := key }

/-- The line that opens and closes the front matter. -/
def isFence (line : List Char) : Bool := trimmed line == "---".toList

def withoutFrontMatter : List (List Char) → List (List Char)
  | [] => []
  | first :: rest =>
    if isFence first then (rest.dropWhile (fun line => !isFence line)).drop 1 else first :: rest

def parse (text : String) : DocPage :=
  let s := (withoutFrontMatter (Text.textLines text.toList)).foldl readLine {}
  { s.page with description := "\n".intercalate s.description.reverse }

end DocPage

structure DocLookup where
  page : Option DocPage := none
  warning : Option String := none
  deriving DecidableEq, Repr, Inhabited

/-- Where pages are looked for, by the kind of the item and the stem of the file. -/
abbrev DocLibrary := DocKind → String → DocLookup

namespace DocLibrary

def readPage (disk : Disk) (path : Path) (warning : Option String) : DocLookup :=
  match disk.readText path with
  | .ok text => ⟨some (DocPage.parse text), warning⟩
  | .error e => ⟨none, some s!"Could not read documentation '{path.text}': {e.message}"⟩

/-- The pages in a directory. Two names are looked for; if both are there, the first counts and a
warning tells so. -/
def ofDirectory (disk : Disk) (root : Path) : DocLibrary := fun kind stem =>
  let directory := root.child kind.directory
  let first := directory.child (stem ++ ".html.markdown")
  let second := directory.child (stem ++ ".markdown")
  if disk.isFile first then
    if disk.isFile second then
      readPage disk first (some ("Ambiguous documentation source for " ++ stem ++ ": both '" ++ first.text ++
        "' and '" ++ second.text ++ "' exist; using the first"))
    else readPage disk first none
  else if disk.isFile second then readPage disk second none
  else {}

end DocLibrary

end ProviderSdk
