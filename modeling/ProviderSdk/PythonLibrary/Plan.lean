import ProviderSdk.PythonLibrary.PackageFiles
import ProviderSdk.PythonLibrary.MemberFiles
import ProviderSdk.PythonLibrary.Tables

/-!
# The plan of a Python library

All files of the library, module after module.
-/

namespace ProviderSdk.PythonLibrary

def memberEntries (directory : Path) (module : String) : Member → List PlanEntry
  | .resource r => [.fileIn directory (fileName r.fileStem) (resourceFile module r)]
  | .dataSource f => [.fileIn directory (fileName f.fileStem) (dataSourceFile module f)]
  | .overlay o => [.overlayIn directory o]
  | .variable _ => []

/-- The initial file of a module; that of the root makes all other modules available. -/
def indexEntry (p : Package) (m : Module) : PlanEntry :=
  .fileIn (moduleDirectory p.name m.name) "__init__.py"
    (indexFile m (if m.isRoot then p.submodules.map (·.name) else []))

def moduleEntries (p : Package) (m : Module) : List PlanEntry :=
  (if m.configVariables.isEmpty then []
   else [.fileIn (moduleDirectory p.name configModule) "vars.py" (configFile p.name m.configVariables)]) ++
    m.members.flatMap (memberEntries (moduleDirectory p.name m.name) m.name) ++ [indexEntry p m]

def commonEntries (p : Package) : List PlanEntry :=
  let root : Path := ⟨packageDirectory p.name⟩
  Library.commonEntries p .python ++
    [.fileAt "setup.py" (setupFile p), .fileIn root "utilities.py" (utilities p.version),
      .fileIn root "tables.py" (tablesFile p)]

def plan (p : Package) : Except EmitError Plan := do
  let start ← Plan.addOutside {} (commonEntries p)
  let modules ← start.addModules (fun m => .ok (moduleEntries p m)) p.modules
  if p.root?.isSome then .ok modules else modules.addOutside [indexEntry p (.empty rootModule)]

end ProviderSdk.PythonLibrary
