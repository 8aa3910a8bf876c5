import ProviderSdk.Banner
import ProviderSdk.Code.Step
import ProviderSdk.Convention
import ProviderSdk.Disk.Path
import ProviderSdk.GoLibrary.TypeText
import ProviderSdk.Library.Default
import ProviderSdk.Package.Tree
import ProviderSdk.Text.Sorted
import ProviderSdk.Text.Split

/-!
# Go source files

A source file has a package clause, imports and declarations. Every module is a package of its own;
that of the root is named after the provider.
-/

namespace ProviderSdk.GoLibrary

open Code

/-- The name of a package or directory: in lower case, without dashes, and no keyword. -/
def packageName (name : String) : String :=
  Convention.go.safe (Text.lower (String.ofList (name.toList.filter (fun c => c != '-'))))

def moduleDirectory (module : String) : Path := if module = rootModule then ⟨""⟩ else ⟨packageName module⟩

def modulePackage (package module : String) : String :=
  if module = rootModule then packageName package else packageName module

def runtimeImport : String := "github.com/pulumi/pulumi/sdk/v3/go/pulumi"

structure Declaration where
  names : List String
  steps : List Step
  deriving Inhabited

structure SourceFile where
  package : String
  imports : List String
  declarations : List Declaration
  deriving Inhabited

/-- Whether an import is of the standard library: its first part has no dot. -/
def isStandard (path : String) : Bool := !((Text.splitAt '/' path.toList).headD []).contains '.'

def importLines (paths : List String) : List Step := lines ((Text.sortedSet paths).map Json.quoted)

/-- The steps that write the package clause and the imports, those of the standard library first. -/
def preamble (package : String) (imports : List String) : List Step :=
  line ("package " ++ package) ++
    (if imports.isEmpty then []
     else blank ++ line "import (" ++
      nested (spaced ([importLines (imports.filter isStandard),
        importLines (imports.filter (fun path => !isStandard path))].filter (fun group => !group.isEmpty))) ++
      line ")")

def SourceFile.steps (f : SourceFile) : List Step :=
  preamble f.package f.imports ++ blank ++ spaced (f.declarations.map (·.steps))

def SourceFile.content (f : SourceFile) : String := CommentStyle.slash.banner ++ Code.text .tab f.steps

def fileName (stem : String) : String := Convention.go.fileName stem ++ ".go"

def fieldName (p : Property) : String := Convention.go.fieldName p.name

def whenever (condition : String) (body : List Step) : List Step := block ("if " ++ condition) body

def returnError : List Step := whenever "err != nil" (line "return nil, err")

def taggedField (p : Property) (type : String) : List Step :=
  slashed p.doc ++ line (s!"{fieldName p} {type} `pulumi:" ++ Json.quoted p.name ++ "`")

def structType (name : String) (body : List Step) : List Step := block s!"type {name} struct" body

def defaultStyle : DefaultStyle where
  trueWord := "true"
  falseWord := "false"
  numbers := scientificNumbers
  helper
    | .bool => "getEnvBool"
    | .int => "getEnvInt"
    | .float => "getEnvFloat"
    | .text => "getEnv"
  variableName := Json.quoted

def foundInEnvironment (e : DefaultExpression) : String := "d, ok := " ++ defaultStyle.lookUp e ++ "; ok"

end ProviderSdk.GoLibrary
