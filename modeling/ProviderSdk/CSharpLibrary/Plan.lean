import ProviderSdk.CSharpLibrary.MemberFiles
import ProviderSdk.CSharpLibrary.ProjectFiles

/-!
# The plan of a C# library

All files of the library, module after module.
-/

namespace ProviderSdk.CSharpLibrary

def memberEntries (package module : String) : Member → List PlanEntry
  | .resource r =>
    [.fileIn (moduleDirectory module) (r.name ++ ".cs") (resourceFile package module r).content]
  | .dataSource f =>
    [.fileIn (moduleDirectory module) (DataSourceFile.className f ++ ".cs")
    (dataSourceFile package module f).content]
  | .overlay o => [.overlayIn (moduleDirectory module) o]
  | .variable _ => []

def moduleEntries (p : Package) (m : Module) : List PlanEntry :=
  (if m.configVariables.isEmpty then []
   else [.fileIn (moduleDirectory configModule) "Config.cs" (configFile p.name m.configVariables).content]) ++
    m.members.flatMap (memberEntries p.name m.name)

/-- The files that belong to no module. -/
def commonEntries (p : Package) : List PlanEntry :=
  Library.commonEntries p .dotnet ++
    [.fileAt (rootNamespace p.name ++ ".csproj") (projectFile p),
      .fileAt "Utilities.cs" (utilities p.name p.version)]

def plan (p : Package) : Except EmitError Plan := do
  let start ← Plan.addOutside {} (commonEntries p)
  start.addModules (fun m => .ok (moduleEntries p m)) p.modules

end ProviderSdk.CSharpLibrary
