import ProviderSdk.Toml.Written

/-!
# The tables of a TOML text

What the lines of a text make together. A table may be written in pieces, but not in any way: one
that has its own header is closed to further headers, one that was named by the keys of entries is
closed to headers, and one in braces is closed to everything. No key is given twice.
-/

namespace ProviderSdk.Toml

/-- How a table came to be. -/
inductive Origin where
  | implied
  | headed
  | keyed
  | enclosed
  deriving DecidableEq, Repr

inductive Node where
  | text (s : String)
  | scalar (run : String)
  | list (items : List Node)
  | table (origin : Origin) (entries : List (String × Node))
  | tables (items : List (List (String × Node)))
  deriving Inhabited

abbrev Entries := List (String × Node)

namespace Node

def text? : Node → Option String
  | text s => some s
  | _ => none

def items? : Node → Option (List Node)
  | list items => some items
  | tables items => some (items.map (table .headed))
  | _ => none

def entries? : Node → Option Entries
  | table _ entries => some entries
  | _ => none

end Node

namespace Entries

/-- The entries with the value of a key replaced, or put at the end. -/
def set (key : String) (node : Node) : Entries → Entries
  | [] => [(key, node)]
  | (k, v) :: rest => if k = key then (k, node) :: rest else (k, v) :: set key node rest

def add? (entries : Entries) (key : String) (node : Node) : Option Entries :=
  match entries.lookup key with
  | some _ => none
  | none => some (entries ++ [(key, node)])

/-- The entries with a value put at a path that the keys of an entry spell. Only tables that came to
be in this way are passed. -/
def addAt? : (path : List String) → Node → Entries → Option Entries
  | [], _, _ => none
  | [key], node, entries => entries.add? key node
  | key :: rest, node, entries =>
    match entries.lookup key with
    | none => (addAt? rest node []).map (fun inner => set key (.table .keyed inner) entries)
    | some (.table .keyed inner) =>
      (addAt? rest node inner).map (fun inner => set key (.table .keyed inner) entries)
    | some _ => none

/-- The entries with the table at the path of a header changed. In lists of tables the last one is meant. -/
def within? (change : Entries → Option Entries) : (path : List String) → Entries → Option Entries
  | [], entries => change entries
  | key :: rest, entries =>
    match entries.lookup key with
    | none => (within? change rest []).map (fun inner => set key (.table .implied inner) entries)
    | some (.table origin inner) =>
      if origin = .enclosed then none
      else (within? change rest inner).map (fun inner => set key (.table origin inner) entries)
    | some (.tables items) => do
      let (before, last) ← Text.unsnoc items
      let last ← within? change rest last
      some (set key (.tables (before ++ [last])) entries)
    | some _ => none

def openTable? (key : String) (entries : Entries) : Option Entries :=
  match entries.lookup key with
  | none => some (set key (.table .headed []) entries)
  | some (.table .implied inner) => some (set key (.table .headed inner) entries)
  | some _ => none

def openElement? (key : String) (entries : Entries) : Option Entries :=
  match entries.lookup key with
  | none => some (set key (.tables [[]]) entries)
  | some (.tables items) => some (set key (.tables (items ++ [[]])) entries)
  | some _ => none

end Entries

mutual

def Written.node? : Written → Option Node
  | .text s => some (.text s)
  | .scalar run => some (.scalar run)
  | .list items => (Written.nodes? items).map .list
  | .table entries => (Written.entries? [] entries).map (.table .enclosed)

def Written.nodes? : List Written → Option (List Node)
  | [] => some []
  | item :: rest => do
    let node ← item.node?
    let nodes ← Written.nodes? rest
    some (node :: nodes)

def Written.entries? (before : Entries) : List (List String × Written) → Option Entries
  | [] => some before
  | (path, value) :: rest => do
    let node ← value.node?
    Written.entries? (← before.addAt? path node) rest

end

/-- A text as far as its lines have been read. -/
structure Tables where
  current : List String := []
  entries : Entries := []
  deriving Inhabited

def Tables.add? (t : Tables) : Line → Option Tables
  | .table path => do
    let (front, key) ← Text.unsnoc path
    some ⟨path, ← t.entries.within? (Entries.openTable? key) front⟩
  | .element path => do
    let (front, key) ← Text.unsnoc path
    some ⟨path, ← t.entries.within? (Entries.openElement? key) front⟩
  | .entry path value => do
    let node ← value.node?
    some { t with entries := ← t.entries.within? (Entries.addAt? path node) t.current }

/-- The entries that the lines of a text make together. -/
def Entries.ofLines? (lines : List Line) : Option Entries :=
  (lines.foldlM Tables.add? ({} : Tables)).map Tables.entries

def Entries.read? (text : String) : Option Entries := (Line.read? text).bind Entries.ofLines?

end ProviderSdk.Toml
