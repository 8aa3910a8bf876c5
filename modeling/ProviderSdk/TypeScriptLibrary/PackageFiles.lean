import ProviderSdk.Banner
import ProviderSdk.Code.Step
import ProviderSdk.Library.Default
import ProviderSdk.Package.Tree
import ProviderSdk.Text.Split
import ProviderSdk.TypeScriptLibrary.SourceFile

/-!
# Files of TypeScript modules that belong to no member

The index of a module exports everything of its files; the index at the root also offers every other
module under its name. The helpers are functions that read environment variables, and the version of
the library.
-/

namespace ProviderSdk.TypeScriptLibrary

open Code

namespace IndexFile

def stem? : Member → Option String
  | .resource r => some r.fileStem
  | .dataSource f => some f.fileStem
  | .variable _ => some "vars"
  | .overlay o => Text.dropEnd? ".ts" o.name

/-- The stems of the files that the index of a module exports, each once. -/
def stems (m : Module) : List String :=
  (m.members.filterMap stem?).foldl (fun known s => if known.contains s then known else known ++ [s]) []

def exports (stems : List String) : List Item :=
  if stems.isEmpty then []
  else [.ofText [] ("\n".intercalate (stems.map (fun s => "export * from \"./" ++ s ++ "\";")))]

/-- The import of modules under their names, and their export. -/
def submodules (names : List String) : List Item :=
  if names.isEmpty then []
  else
    [.ofText names ("\n".intercalate ("// Export sub-modules:" ::
        names.map (fun name => (Import.everything ("./" ++ name) name).statement))),
      ({ names := names } : Export).item]

end IndexFile

def indexFile (m : Module) (submodules : List String) : SourceFile :=
  .of [] (IndexFile.exports (IndexFile.stems m) ++ IndexFile.submodules submodules)

namespace Utilities

def textAmong (texts : List String) : String :=
  "if ([" ++ ", ".intercalate (texts.map doubleQuoted) ++ "].includes(s))"

/-- The first variable that is set and not empty. -/
def getEnv : List Step :=
  block "export function getEnv(...vars: string[]): string | undefined"
    (block "for (const v of vars)"
        (line "const value = process.env[v];" ++ block "if (value)" (line "return value;")) ++
      line "return undefined;")

/-- The truth value of the first variable that is set. -/
def getEnvBoolean : List Step :=
  block "export function getEnvBoolean(...vars: string[]): boolean | undefined"
    (line "const s = getEnv(...vars);" ++
      block "if (s !== undefined)"
        (block (textAmong trueTexts) (line "return true;") ++
          block (textAmong falseTexts) (line "return false;")) ++
      line "return undefined;")

/-- The number of the first variable that is set. -/
def getEnvNumber : List Step :=
  block "export function getEnvNumber(...vars: string[]): number | undefined"
    (line "const s = getEnv(...vars);" ++
      block "if (s !== undefined)"
        (line "const f = parseFloat(s);" ++ block "if (!isNaN(f))" (line "return f;")) ++
      line "return undefined;")

def getVersion (version : String) : List Step :=
  block "export function getVersion(): string" (line ("return \"" ++ version ++ "\";"))

end Utilities

open Utilities in
/-- The text of the helpers behind the banner. -/
def utilities (version : String) : String :=
  CommentStyle.slash.banner ++
    Code.text .two (spaced [getEnv, getEnvBoolean, getEnvNumber, getVersion version])

end ProviderSdk.TypeScriptLibrary
