import ProviderSdk.Library.Descriptor
import ProviderSdk.Package.Serialized

/-!
# The package as JSON

The target that is no programming language: the whole package as indented JSON. Where hand-written
files lie and where the schema came from is left out, since it says nothing about the package.
-/

namespace ProviderSdk.Library

def unlessEmpty (key : String) (items : List Json) : List (String × Json) :=
  if items.isEmpty then [] else [(key, .arr items)]

def moduleMembers (m : Module) : List (String × Json) :=
  unlessEmpty "resources" (m.resources.map Serialized.resource) ++
    unlessEmpty "functions" (m.dataSources.map Serialized.dataSource) ++
    unlessEmpty "variables" (m.configVariables.map Serialized.property)

def schemaModules (ms : List Module) : List (String × Json) :=
  ms.filterMap (fun m =>
    let members := moduleMembers m
    if members.isEmpty then none else some (m.name, .obj members))

def schemaJson (p : Package) : Json :=
  .obj ([("name", .str p.name), ("version", .str p.version)] ++ Serialized.metadataMembers p.metadata ++
    [("language", Serialized.packaging p.packaging), ("modules", .obj (schemaModules p.modules))])

def schemaText (p : Package) : String := (schemaJson p).pretty ++ "\n"

def schemaPlan (p : Package) : Except EmitError Plan :=
  Plan.addOutside {} (commonEntries p .schema ++ [.fileAt "schema.json" (schemaText p)])

end ProviderSdk.Library
