import ProviderSdk.GoLibrary.SourceFile

/-!
# The helpers of a Go package

Functions that read environment variables, and the version of the library. Every package has them for itself.
-/

namespace ProviderSdk.GoLibrary

open Code

namespace Utilities

/-- The first variable that is set. -/
def getEnv : Declaration where
  names := ["getEnv"]
  steps :=
    block "func getEnv(vars ...string) (string, bool)"
      (block "for _, v := range vars"
          (whenever "value, ok := os.LookupEnv(v); ok" (line "return value, true")) ++
        line "return \"\", false")

/-- A function that reads the first variable that is set in some way. -/
def reading (name type variableName conversion zero : String) : Declaration where
  names := [name]
  steps :=
    block s!"func {name}(vars ...string) ({type}, bool)"
      (whenever "value, ok := getEnv(vars...); ok"
          (whenever s!"{variableName}, err := strconv.{conversion}; err == nil"
            (line s!"return {variableName}, true")) ++
        line s!"return {zero}, false")

def pkgVersion (version : String) : Declaration where
  names := ["pkgVersion"]
  steps :=
    line "// pkgVersion is the version of this SDK." ++
    block "func pkgVersion() string" (line ("return " ++ Json.quoted version))

def versionedOptions (name type : String) : Declaration where
  names := [name]
  steps :=
    block s!"func {name}(opts []pulumi.{type}) []pulumi.{type}"
      (line (s!"return append([]pulumi.{type}" ++ braced "pulumi.Version(pkgVersion())" ++ ", opts...)"))

end Utilities

open Utilities in
def utilitiesFile (package module version : String) : SourceFile where
  package := modulePackage package module
  imports := ["os", "strconv", runtimeImport]
  declarations :=
    [getEnv, reading "getEnvBool" "bool" "b" "ParseBool(value)" "false",
      reading "getEnvInt" "int" "i" "Atoi(value)" "0",
      reading "getEnvFloat" "float64" "f" "ParseFloat(value, 64)" "0", pkgVersion version,
      versionedOptions "pkgResourceDefaultOpts" "ResourceOption",
      versionedOptions "pkgInvokeDefaultOpts" "InvokeOption"]

end ProviderSdk.GoLibrary
