import ProviderSdk.CSharpLibrary.Plan
import ProviderSdk.GoLibrary.Plan
import ProviderSdk.Library.SchemaFile
import ProviderSdk.PythonLibrary.Plan
import ProviderSdk.TypeScriptLibrary.Plan

/-!
# Targets

What is generated for each target.
-/

namespace ProviderSdk

def Language.extension : Language → String
  | .nodejs => "ts"
  | .python => "py"
  | .dotnet => "cs"
  | .go => "go"
  | .schema => "json"

def Package.planFor (p : Package) : Language → Except EmitError Plan
  | .nodejs => TypeScriptLibrary.plan p
  | .python => PythonLibrary.plan p
  | .dotnet => CSharpLibrary.plan p
  | .go => GoLibrary.plan p
  | .schema => Library.schemaPlan p

def Plan.preview (p : Plan) : List PlannedFile :=
  p.files.mergeSort (fun f g => decide (f.path.text ≤ g.path.text))

end ProviderSdk
