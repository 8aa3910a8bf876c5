import ProviderSdk.TypeScriptLibrary.PackageFiles
import ProviderSdk.TypeScriptLibrary.Manifest
import ProviderSdk.TypeScriptLibrary.MemberFiles

/-!
# The plan of a TypeScript library

All files of the library, module after module, and last the list of sources, which names every
TypeScript file of the plan.
-/

namespace ProviderSdk.TypeScriptLibrary

def memberEntries (module : String) : Member → List PlanEntry
  | .resource r => [.fileIn (moduleDirectory module) (r.fileStem ++ ".ts") (resourceFile module r).content]
  | .dataSource f =>
    [.fileIn (moduleDirectory module) (f.fileStem ++ ".ts") (dataSourceFile module f).content]
  | .overlay o => [.overlayIn (moduleDirectory module) o]
  | .variable _ => []

def indexEntry (p : Package) (m : Module) : PlanEntry :=
  .fileIn (moduleDirectory m.name) "index.ts"
    (indexFile m (if m.isRoot then p.submodules.map (·.name) else [])).content

def moduleEntries (p : Package) (m : Module) : List PlanEntry :=
  (if m.configVariables.isEmpty then []
   else [.fileIn ⟨configModule⟩ "vars.ts" (configFile p.name m.configVariables).content]) ++
    m.members.flatMap (memberEntries m.name) ++ [indexEntry p m]

def plan (p : Package) : Except EmitError Plan := do
  let start ← Plan.addOutside {}
    (Library.commonEntries p .nodejs ++ [.fileAt "utilities.ts" (utilities p.version)])
  let modules ← start.addModules (fun m => .ok (moduleEntries p m)) p.modules
  let indexed ←
    if p.root?.isSome then .ok modules else modules.addOutside [indexEntry p (.empty rootModule)]
  let listed ← indexed.addOutside [.fileAt "package.json" (manifest p)]
  listed.addOutside [.fileAt "tsconfig.json" (sourceList (sources listed))]

end ProviderSdk.TypeScriptLibrary
