import ProviderSdk.Library.Descriptor
import ProviderSdk.PythonLibrary.SourceFile

/-!
# Files of Python packages that belong to no member

The file that a package starts with imports everything of the files in its directory; that of the
root also makes the other modules available. Beside it the root has the setup file and the helpers,
functions that read environment variables and the version of the library.
-/

namespace ProviderSdk.PythonLibrary

open Code

namespace IndexFile

def overlayStem? (o : OverlayFile) : Option String :=
  (Text.dropEnd? ".py" o.name).filter (fun stem => stem != "__init__")

def stems (m : Module) : List String :=
  (if m.configVariables.isEmpty then [] else ["vars"]) ++
    m.resources.map (fun r => Convention.python.fileName r.fileStem) ++
    m.dataSources.map (fun f => Convention.python.fileName f.fileStem) ++
    m.overlays.filterMap overlayStem?

def imports (stems : List String) : List Step :=
  if stems.isEmpty then []
  else line "# Export this package's modules as members:" ++
    lines (stems.map (fun stem => "from ." ++ stem ++ " import *"))

def submodules (names : List String) : List Step :=
  line "# Make subpackages available:" ++
  line ("__all__ = [" ++ ", ".intercalate (names.map singleQuoted) ++ "]") ++
  suite "for pkg in __all__:"
    (suite s!"if pkg != '{configModule}':"
      (line ("importlib.import_module(f'" ++ braced "__name__" ++ "." ++ braced "pkg" ++ "')")))

end IndexFile

/-- The initial file of a module that makes further modules available. -/
def indexFile (m : Module) (submodules : List String) : String :=
  let stems := IndexFile.stems m
  sourceText (
    if submodules.isEmpty then IndexFile.imports stems
    else line "import importlib" ++ IndexFile.imports stems ++ (if stems.isEmpty then [] else blank) ++
      IndexFile.submodules submodules)

namespace Setup

/-- The columns behind the opening parenthesis of the call. -/
def margin : String := "      "

def argument (key value : String) : String := margin ++ key ++ "=" ++ value ++ ","

def textArgument (key value : String) : List String :=
  if value = "" then [] else [argument key (Json.quoted value)]

/-- The requirements; the run-time library is always one of them. -/
def requirements (p : Package) : Dependencies :=
  Library.withDependency "pulumi" ">=3.0.0,<4.0.0" p.packaging.pythonRequirements

def setupLines (p : Package) : List String :=
  let about := p.metadata
  ["from setuptools import setup, find_packages", "",
    "setup(name=" ++ Json.quoted (packageDirectory p.name) ++ ",",
    argument "version" (Json.quoted p.version)] ++
  textArgument "description" about.description ++
  (if about.keywords.isEmpty then [] else [argument "keywords"
    (Json.quoted (" ".intercalate about.keywords))]) ++
  textArgument "url" about.homepage ++
  (if about.repository = "" then []
   else [margin ++ "project_urls=" ++ openBrace,
     margin ++ "    'Repository': " ++ Json.quoted about.repository, margin ++ closeBrace ++ ","]) ++
  textArgument "license" about.license ++
  [argument "packages" "find_packages()", margin ++ "install_requires=["] ++
  commaSeparated ""
    ((requirements p).map (fun (name, versions) => margin ++ "    " ++ Json.quoted (name ++ versions))) ++
  [margin ++ "],", margin ++ "zip_safe=False)"]

end Setup

def setupFile (p : Package) : String :=
  CommentStyle.hash.banner ++ Code.text .four (lines (Setup.setupLines p))

namespace Utilities

def textAmong (texts : List String) : String :=
  "if s in [" ++ ", ".intercalate (texts.map singleQuoted) ++ "]:"

/-- The first variable that is set. -/
def getEnv : List Step :=
  suite "def get_env(*args):"
    (suite "for v in args:"
        (line "value = os.getenv(v)" ++ suite "if value is not None:" (line "return value")) ++
      line "return None")

/-- A function that reads the text of the first variable that is set in some way. -/
def reading (name : String) (body : List Step) : List Step :=
  suite s!"def {name}(*args):"
    (line "s = get_env(*args)" ++ suite "if s is not None:" body ++ line "return None")

/-- A conversion that fails on texts of another form. -/
def converted (expression : String) : List Step :=
  suite "try:" (line ("return " ++ expression)) ++ suite "except ValueError:" (line "return None")

/-- The truth value of the first variable that is set. -/
def getEnvBool : List Step :=
  reading "get_env_bool"
    (suite (textAmong trueTexts) (line "return True") ++ suite (textAmong falseTexts) (line "return False"))

def getVersion (version : String) : List Step :=
  suite "def get_version():" (line ("return '" ++ version ++ "'"))

end Utilities

open Utilities in
def utilities (version : String) : String :=
  let functions := [getEnv, getEnvBool, reading "get_env_int" (converted "int(s)"),
    reading "get_env_float" (converted "float(s)"), getVersion version]
  sourceText (line "import os" ++ functions.flatMap (fun f => blank ++ blank ++ f))

end ProviderSdk.PythonLibrary
