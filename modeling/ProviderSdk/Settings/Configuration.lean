import ProviderSdk.Schema.LoadError
import ProviderSdk.Settings.Preferences
import ProviderSdk.Toml.Node

/-!
# Configuration files

A configuration file is a TOML text whose only table, `generate`, holds preferences. Keys that mean
nothing are refused. A table may also be written as the list of its values.
-/

namespace ProviderSdk

open Toml (Node Entries)

namespace Configuration

/-- A target by its name, or by a table with this name as its only key and nothing behind it. -/
def language? : Node → Option Language
  | .text s => Language.all.find? (fun l => l.name == s)
  | .table _ [(name, inner)] =>
    match inner with
    | .table _ [] => Language.all.find? (fun l => l.name == name)
    | .list [] => Language.all.find? (fun l => l.name == name)
    | _ => none
  | _ => none

abbrev Key := String × (Preferences → Node → Option Preferences)

def textKey (name : String) (set : Preferences → String → Preferences) : Key :=
  (name, fun p node => node.text?.map (set p))

/-- The keys of preferences that a list of values cannot leave out. -/
def textKeys : List Key := [
  textKey "package" (fun p s => { p with package := some s }),
  textKey "version" (fun p s => { p with version := some s }),
  textKey "schema" (fun p s => { p with schema := some ⟨s⟩ }),
  textKey "out" (fun p s => { p with out := some ⟨s⟩ }),
  textKey "overlays" (fun p s => { p with overlays := some ⟨s⟩ }),
  textKey "docs" (fun p s => { p with docs := some ⟨s⟩ })]

def languagesKey : Key :=
  ("languages", fun p node => do
    let languages ← (← node.items?).mapM language?
    some { p with languages := languages })

/-- The keys of preferences, in the order in which a list gives their values. -/
def keys : List Key := textKeys ++ [languagesKey]

/-- Preferences in a table, or in a list of values; what a list holds beyond them is not read. -/
def preferences? (node : Node) : Option Preferences :=
  match node.entries? with
  | some entries => entries.foldlM (fun p (name, value) => do (← keys.lookup name) p value) {}
  | none => do
    let items ← node.items?
    if items.length < textKeys.length then none
    else (keys.zip items).foldlM (fun p ((_, add), value) => add p value) {}

def ofEntries? : Entries → Option Preferences
  | [] => some {}
  | [("generate", node)] => preferences? node
  | _ => none

def load (source : SourceText) : Except LoadError Preferences :=
  match (Entries.read? source.text).bind ofEntries? with
  | some p => .ok p
  | none => .error (.toml source)

def ofFile (disk : Disk) (path : Path) : Except LoadError Preferences :=
  (SourceText.ofFile disk path).bind load

/-- The name of the configuration that is looked for if none is given. -/
def fileName : Path := "tfgen.toml"

def discover (disk : Disk) (directory : Path) : Except LoadError (Option Preferences) :=
  let path := directory.join fileName
  match disk.node path with
  | .ok _ => (ofFile disk path).map some
  | .error _ => .ok none

end Configuration

end ProviderSdk
