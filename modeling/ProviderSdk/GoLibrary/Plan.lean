import ProviderSdk.GoLibrary.MemberFiles
import ProviderSdk.GoLibrary.Utilities
import ProviderSdk.Library.Descriptor

/-!
# The plan of a Go library

All files of the library, module after module. A module whose members clash cannot be planned.
-/

namespace ProviderSdk.GoLibrary

def importBasePath (p : Package) : String :=
  match p.packaging.goImportBasePath with
  | some path => String.ofList (path.toList.reverse.dropWhile (fun c => c == '/')).reverse
  | none => s!"github.com/pulumi/pulumi-{p.name}/sdk/go/{p.name}"

def moduleFile (p : Package) : String :=
  s!"module {importBasePath p}\n\ngo 1.21\n\nrequire github.com/pulumi/pulumi/sdk/v3 v3.0.0\n"

def memberEntries (package module : String) (names : FunctionNames) : Member → List PlanEntry
  | .resource r =>
    [.fileIn (moduleDirectory module) (fileName r.fileStem) (resourceFile package module r).content]
  | .dataSource f =>
    [.fileIn (moduleDirectory module) (fileName f.fileStem)
    (dataSourceFile package module (names.nameOf f) f).content]
  | .overlay o => [.overlayIn (moduleDirectory module) o]
  | .variable _ => []

def isGenerated : Member → Bool
  | .overlay _ => false
  | _ => true

def moduleEntries (p : Package) (m : Module) : Except EmitCause (List PlanEntry) := do
  let names ← functionNames m
  .ok ((if m.configVariables.isEmpty then []
      else [.fileIn (moduleDirectory configModule) "config.go"
        (configFile p.name m.configVariables).content]) ++
    m.members.flatMap (memberEntries p.name m.name names) ++
    (if m.members.any isGenerated then
       [.fileIn (moduleDirectory m.name) "internal_utilities.go"
         (utilitiesFile p.name m.name p.version).content]
     else []))

def plan (p : Package) : Except EmitError Plan := do
  let start ← Plan.addOutside {} (Library.commonEntries p .go ++ [.fileAt "go.mod" (moduleFile p)])
  start.addModules (moduleEntries p) p.modules

end ProviderSdk.GoLibrary
