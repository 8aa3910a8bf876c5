import ProviderSdk.Schema.Field
import ProviderSdk.Schema.Override

/-!
# Provider documents

A provider document is the schema of a provider together with what its author says on top of it. All
its maps stand in the order of their keys.
-/

namespace ProviderSdk

/-- The configuration, the resources and the data sources of a provider. -/
structure ProviderSchema where
  config : ObjectSchema := []
  resources : List (String × ObjectSchema) := []
  dataSources : List (String × ObjectSchema) := []
  deriving Inhabited

structure Document where
  name : String := ""
  description : String := ""
  keywords : List String := []
  license : String := ""
  homepage : String := ""
  repository : String := ""
  provider : ProviderSchema := {}
  config : FieldOverrides := []
  resources : List (String × ItemOverride) := []
  dataSources : List (String × ItemOverride) := []
  typeScript : TypeScriptPackaging := {}
  python : PythonPackaging := {}
  cSharp : CSharpPackaging := {}
  go : GoPackaging := {}
  provenance : Option Provenance := none
  deriving Inhabited

/-- What the names of resources and data sources start with. -/
def Document.resourcePrefix (d : Document) : String := d.name ++ "_"

end ProviderSdk
