import ProviderSdk.Library.Descriptor
import ProviderSdk.Code.Step
import ProviderSdk.Text.Sorted

/-!
# Manifests of a TypeScript library

The manifest of the package with its dependencies, and the compiler's list of all source files.
-/

namespace ProviderSdk.TypeScriptLibrary

open Code (openBrace closeBrace)
open Library (withDependency)

/-- A JSON object with one member a line, behind some spaces; no members are written on one line. -/
def objectLines (indentation : String) (members : List String) : String :=
  if members.isEmpty then openBrace ++ closeBrace
  else openBrace ++ "\n" ++ ",\n".intercalate (members.map (fun m => indentation ++ "  " ++ m)) ++ "\n" ++
    indentation ++ closeBrace

def objectMember (key value : String) : String := Json.quoted key ++ ": " ++ value

def dependencyObject (ds : Dependencies) : String :=
  objectLines "  " (ds.map (fun (name, version) => objectMember name (Json.quoted version)))

def textMember (key value : String) : List String :=
  if value = "" then [] else [objectMember key (Json.quoted value)]

def manifest (p : Package) : String :=
  let about := p.metadata
  objectLines ""
    ([objectMember "name" (Json.quoted ("@pulumi/" ++ p.name)),
      objectMember "version" (Json.quoted p.version)] ++
      textMember "description" about.description ++
      textMember "homepage" about.homepage ++
      textMember "repository" about.repository ++
      textMember "license" about.license ++
      (if about.keywords.isEmpty then []
       else [objectMember "keywords" ("[" ++ ", ".intercalate (about.keywords.map Json.quoted) ++ "]")]) ++
      [objectMember "scripts" (dependencyObject [("build", "tsc")]),
        objectMember "dependencies" (dependencyObject p.packaging.typeScriptDependencies),
        objectMember "devDependencies"
          (dependencyObject (withDependency "typescript" "^4.3.5" p.packaging.typeScriptDevDependencies)),
        objectMember "peerDependencies"
          (dependencyObject (withDependency "@pulumi/pulumi" "^3.0.0"
            p.packaging.typeScriptPeerDependencies))]) ++
    "\n"

def compilerOptions : List (String × Json) := [
  ("outDir", .str "bin"), ("target", .str "es2016"), ("module", .str "commonjs"),
  ("moduleResolution", .str "node"), ("declaration", .bool true), ("sourceMap", .bool true),
  ("stripInternal", .bool true), ("experimentalDecorators", .bool true),
  ("noFallthroughCasesInSwitch", .bool true), ("forceConsistentCasingInFileNames", .bool true),
  ("strict", .bool true)]

/-- The sources of a plan: everything to be written or copied that ends in `.ts`, sorted, each once. -/
def sources (p : Plan) : List String :=
  let paths := p.files.map (·.path) ++ p.overlays.map (·.path)
  Text.sortedSet ((paths.filter (fun path => path.extension? == some "ts")).map (·.text))

def sourceList (files : List String) : String :=
  openBrace ++ "\n  " ++
    objectMember "compilerOptions"
      (objectLines "  " (compilerOptions.map (fun (key, value) => objectMember key value.render))) ++
    ",\n  \"files\": [\n" ++ ",\n".intercalate (files.map (fun f => "    \"" ++ f ++ "\"")) ++ "\n  ]\n" ++
    closeBrace ++ "\n"

end ProviderSdk.TypeScriptLibrary
