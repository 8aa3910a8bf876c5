import ProviderSdk.Json.Value

/-!
# Overrides

What the author of a package says about resources, data sources and fields on top of the provider
schema: names, types, defaults, documentation, and hand-written files to be added.
-/

namespace ProviderSdk

/-- The names of fields with their values, in the order of the names. -/
abbrev Properties := List (String × Json)

/-- How a default is found when no value is given. -/
structure DefaultOverride where
  value : Option Json := none
  envVars : List String := []
  /-- Computes the default from the other properties of the item. It is attached by a program and cannot be
  written in a document. -/
  compute : Option (Properties → Option Json) := none
  deriving Inhabited

/-- The kind of file that stands behind a field of text. -/
inductive AssetForm where
  | fileAsset
  | bytesAsset
  | fileArchive
  | bytesArchive
  deriving DecidableEq, Repr

def AssetForm.isArchive : AssetForm → Bool
  | .fileArchive => true
  | .bytesArchive => true
  | _ => false

structure FieldOverride where
  name : Option String := none
  type : Option String := none
  altTypes : List String := []
  element : Option FieldOverride := none
  fields : List (String × FieldOverride) := []
  asset : Option AssetForm := none
  default : Option DefaultOverride := none
  /-- Whether a collection is treated as its only element, instead of what its size limit says. -/
  maxItemsOne : Option Bool := none

instance : Inhabited FieldOverride := ⟨{}⟩

/-- What is said about named fields, in the order of the names. -/
abbrev FieldOverrides := List (String × FieldOverride)

/-- What is said about a field of the object that a container holds: what the override of the
element says wins over what the override of the container says. -/
def FieldOverride.field? (o : FieldOverride) (key : String) : Option FieldOverride :=
  (o.element.bind (fun e => e.fields.lookup key)).or (o.fields.lookup key)

structure DocSource where
  source : Option String := none
  includeArgumentsFrom : Option String := none
  includeAttributesFrom : Option String := none
  deriving DecidableEq, Repr, Inhabited

/-- What is said about a resource or a data source. -/
structure ItemOverride where
  token : String
  fields : FieldOverrides := []
  docs : Option DocSource := none
  deleteBeforeReplace : Bool := false
  deriving Inhabited

/-- Hand-written files, by module. -/
structure OverlayTree where
  files : List String := []
  modules : List (String × OverlayTree) := []

instance : Inhabited OverlayTree := ⟨{}⟩

/-- What a package manager calls a dependency, with the versions it may have. -/
abbrev Dependencies := List (String × String)

structure TypeScriptPackaging where
  dependencies : Dependencies := []
  devDependencies : Dependencies := []
  peerDependencies : Dependencies := []
  overlay : Option OverlayTree := none
  deriving Inhabited

structure PythonPackaging where
  requirements : Dependencies := []
  overlay : Option OverlayTree := none
  deriving Inhabited

structure CSharpPackaging where
  packageReferences : Dependencies := []
  overlay : Option OverlayTree := none
  deriving Inhabited

structure GoPackaging where
  importBasePath : Option String := none
  overlay : Option OverlayTree := none
  deriving Inhabited

structure Provenance where
  repository : String := ""
  tag : Option String := none
  commit : Option String := none
  deriving DecidableEq, Repr, Inhabited

end ProviderSdk
