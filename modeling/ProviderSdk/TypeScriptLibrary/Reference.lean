import ProviderSdk.Disk.Path
import ProviderSdk.Library.Default
import ProviderSdk.Text.Case
import ProviderSdk.TypeScriptLibrary.SourceFile
import ProviderSdk.TypeScriptLibrary.TypeText

/-!
# References between TypeScript files

Where the files of a module lie, and how one file imports another: every specifier is relative to
the directory of the importing file.
-/

namespace ProviderSdk.TypeScriptLibrary

def moduleDirectory (module : String) : Path := if module = rootModule then ⟨""⟩ else ⟨module⟩

/-- How a file of one module names a file of another. -/
def specifier (fromModule toModule stem : String) : String :=
  let up := if fromModule = rootModule then "./" else "../"
  if fromModule = toModule then "./" ++ stem
  else if toModule = rootModule then up ++ stem
  else up ++ toModule ++ "/" ++ stem

/-- The import of the helpers that read environment variables. -/
def utilitiesImport (module : String) : Import :=
  .everything (specifier module rootModule "utilities") "utilities"

def tokenStem (t : Token) : String := t.fileStem.getD (Text.lowerFirst t.name)

def importName (source name : String) : List Import → List Import
  | [] => [{ source := source, names := [name] }]
  | i :: rest => if i.source = source then i.withName name :: rest else i :: importName source name rest

/-- The imports of the custom types that properties mention, without those of the file itself. -/
def customTypeImports (module ownStem : String) (ps : List Property) : List Import :=
  (propertyTokens ps).foldl (fun imports t =>
    if t.module = module ∧ tokenStem t = ownStem then imports
    else importName (specifier module t.module (tokenStem t)) t.name imports) []

/-- Defaults: helpers of the utilities file, and `??` between what is tried. -/
def defaultStyle : DefaultStyle where
  trueWord := "true"
  falseWord := "false"
  numbers := positionalNumbers
  helper
    | .bool => "utilities.getEnvBoolean"
    | .int => "utilities.getEnvNumber"
    | .float => "utilities.getEnvNumber"
    | .text => "utilities.getEnv"
  variableName := doubleQuoted

def defaultText? (p : Property) : Option String :=
  p.defaultExpression?.map (fun e => " ?? ".intercalate (defaultStyle.alternatives e))

end ProviderSdk.TypeScriptLibrary
