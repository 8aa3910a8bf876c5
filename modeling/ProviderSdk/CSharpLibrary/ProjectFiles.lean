import ProviderSdk.CSharpLibrary.SourceFile
import ProviderSdk.Library.Descriptor
import ProviderSdk.Version

/-!
# Files of C# projects that belong to no member

The project file, and a class with functions that read environment variables and with the version of
the library.
-/

namespace ProviderSdk.CSharpLibrary

open Code

namespace Project

/-- The version in the form of the package manager: a pre-release floats. A text that is no version
stands as it is, without a `v` in front. -/
def packageVersion (version : String) : String :=
  match Version.parse version with
  | .ok v => v.floating
  | .error _ => (Text.dropStart? "v" version).getD version

def tagged (tag text : String) : String := s!"<{tag}>{xmlText text}</{tag}>"

def textElement (tag text : String) : List String := if text = "" then [] else [tagged tag text]

def properties (p : Package) : List String :=
  let about := p.metadata
  [tagged "GeneratePackageOnBuild" "true", tagged "Version" (packageVersion p.version)] ++
    textElement "Description" about.description ++
    textElement "PackageLicenseExpression" about.license ++
    textElement "PackageProjectUrl" about.homepage ++
    textElement "RepositoryUrl" about.repository ++
    (if about.keywords.isEmpty then [] else [tagged "PackageTags" (";".intercalate about.keywords)]) ++
    [tagged "TargetFramework" "netcoreapp3.1", tagged "Nullable" "enable"]

/-- The packages that the project refers to; the run-time library is always one of them. -/
def references (p : Package) : Dependencies :=
  Library.withDependency "Pulumi" "3.*" p.packaging.cSharpReferences

def reference (name version : String) : String :=
  s!"<PackageReference Include=\"{xmlText name}\" Version=\"{xmlText version}\" />"

def projectLines (p : Package) : List String :=
  ["<Project Sdk=\"Microsoft.NET.Sdk\">", "", "  <PropertyGroup>"] ++
    (properties p).map (fun l => "    " ++ l) ++
    ["  </PropertyGroup>", "", "  <ItemGroup>"] ++
    (references p).map (fun (name, version) => "    " ++ reference name version) ++
    ["  </ItemGroup>", "", "</Project>"]

end Project

def projectFile (p : Package) : String :=
  CommentStyle.xml.banner ++ Code.text .two (lines (Project.projectLines p))

namespace Utilities

def textArray (texts : List String) : String :=
  braced (" " ++ ", ".intercalate (texts.map doubleQuoted) ++ " ")

/-- The first variable that is set. -/
def getEnv : List Step :=
  blockBelow "public static string? GetEnv(params string[] names)"
    (blockBelow "foreach (var n in names)"
        (line "var value = Environment.GetEnvironmentVariable(n);" ++
          whenever "value != null" (line "return value;")) ++
      line "return null;")

def truthTexts : List Step :=
  lines ["static string[] trueValues = " ++ textArray trueTexts ++ ";",
    "static string[] falseValues = " ++ textArray falseTexts ++ ";"]

/-- The truth value of the first variable that is set. -/
def getEnvBoolean : List Step :=
  blockBelow "public static bool? GetEnvBoolean(params string[] names)"
    (line "var s = GetEnv(names);" ++
      whenever "s != null"
        (whenever "Array.IndexOf(trueValues, s) != -1" (line "return true;") ++
          whenever "Array.IndexOf(falseValues, s) != -1" (line "return false;")) ++
      line "return null;")

/-- A function that reads the number of the first variable that is set. -/
def getEnvNumber (type name : String) : List Step :=
  line (s!"public static {type}? GetEnv{name}(params string[] names) => " ++
    s!"{type}.TryParse(GetEnv(names), out {type} v) ? ({type}?)v : null;")

/-- Options with the version of the library, unless they have one. -/
def withVersion : List Step :=
  blockBelow "public static InvokeOptions WithVersion(this InvokeOptions? options)"
    (whenever "options?.Version != null" (line "return options;") ++
      line "return new InvokeOptions" ++
      line openBrace ++
      nested (lines ["Parent = options?.Parent,", "Provider = options?.Provider,", "Version = Version,"]) ++
      line (closeBrace ++ ";"))

def members (version : String) : List (List Step) :=
  [getEnv, truthTexts, getEnvBoolean, getEnvNumber "int" "Int32", getEnvNumber "double" "Double", withVersion,
    line ("public static string Version => " ++ Json.quoted version ++ ";")]

def utilitiesClass (version : String) : ClassCode where
  name := "Utilities"
  steps := blockBelow "static class Utilities" (spaced (members version))

end Utilities

def utilities (package version : String) : String :=
  CommentStyle.slash.banner ++
    Code.text .four (line "using System;" ++ blank ++
      blockBelow ("namespace " ++ rootNamespace package) (Utilities.utilitiesClass version).steps)

end ProviderSdk.CSharpLibrary
