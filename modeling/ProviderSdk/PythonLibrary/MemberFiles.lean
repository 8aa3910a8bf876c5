import ProviderSdk.Package.Member
import ProviderSdk.PythonLibrary.SourceFile
import ProviderSdk.PythonLibrary.TypeText

/-!
# Python files of members

The class of a resource, the class of the results of a data source with the function that invokes
it, and one name for every variable of the configuration.
-/

namespace ProviderSdk.PythonLibrary

open Code

namespace ResourceFile

def constructorDoc (r : Resource) : String :=
  let parameters := "\n".intercalate (
    [":param str resource_name: The name of the resource.",
      ":param pulumi.ResourceOptions opts: Options for the resource."] ++
    r.inputs.map (fun p => parameterLine (inputOf (inputTypeText p.type)) p))
  if r.doc = "" then parameters else Text.trimEnd r.doc ++ "\n\n" ++ parameters

def output (p : Property) : List Step :=
  let type := typeText p.type
  line (fieldName p ++ ": pulumi.Output[" ++
    (if p.optional then "Optional[" ++ type ++ "]" else type) ++ "]") ++
    docstring p.doc

def assignment (p : Property) : List Step :=
  (match p.deprecation with
   | some message =>
     suite s!"if {fieldName p} is not None:"
       (line ("warnings.warn(" ++ Json.quoted message ++ ", DeprecationWarning)"))
   | none => []) ++
  fillDefault p ++ requiredCheck p ++ line s!"__props__['{fieldName p}'] = {fieldName p}"

/-- The arguments on their way to the engine, unless a resource is looked up. -/
def assignments (r : Resource) : List Step :=
  suite "if __props__ is not None:"
      (line ("raise TypeError('__props__ is only valid when passed in combination with a valid opts.id " ++
        "to get an existing resource')")) ++
    line "__props__ = dict()" ++
    (if r.inputs.isEmpty && r.outputOnly.isEmpty then [] else blank) ++
    r.inputs.flatMap assignment ++
    r.outputOnly.flatMap (fun p => line s!"__props__['{fieldName p}'] = None")

def constructor (r : Resource) : List Step :=
  let parameters := ["__self__", "resource_name", "opts=None"] ++ r.inputs.map parameter ++ ["__props__=None"]
  let engineType := if r.isProvider then r.token.name else r.token.render
  suite ("def __init__(" ++ ", ".intercalate parameters ++ "):")
    (docstringLines (constructorDoc r) ++
      suite "if opts is None:" (line "opts = pulumi.ResourceOptions()") ++
      suite "if not isinstance(opts, pulumi.ResourceOptions):"
        (line "raise TypeError('Expected resource options to be a ResourceOptions instance')") ++
      fillVersion ++
      (if r.deleteBeforeReplace then
        line ("opts = pulumi.ResourceOptions.merge(pulumi.ResourceOptions(delete_before_replace=True), opts)")
       else []) ++
      suite "if opts.id is None:" (assignments r) ++
      suite s!"super({r.name}, __self__).__init__("
        (lines ["'" ++ engineType ++ "',", "resource_name,", "__props__,", "opts)"]))

def lookUp (r : Resource) : List Step :=
  blank ++ line "@staticmethod" ++
  suite "def get(resource_name, id, opts=None):"
    (docstringLines
      (s!"Get an existing {r.name} resource's state with the given name, id, and optional extra\n" ++
        "properties used to qualify the lookup.\n\n" ++
        ":param str resource_name: The unique name of the resulting resource.\n" ++
        ":param str id: The unique provider ID of the resource to lookup.\n" ++
        ":param pulumi.ResourceOptions opts: Options for the resource.") ++
      line "opts = pulumi.ResourceOptions.merge(opts, pulumi.ResourceOptions(id=id))" ++
      line s!"return {r.name}(resource_name, opts=opts)")

/-- The functions that look up the names of properties. -/
def nameLookups : List Step :=
  blank ++
  suite "def translate_output_property(self, prop):"
    (line "return tables._CAMEL_TO_SNAKE_CASE_TABLE.get(prop) or prop") ++
  blank ++
  suite "def translate_input_property(self, prop):"
    (line "return tables._SNAKE_TO_CAMEL_CASE_TABLE.get(prop) or prop")

def classSteps (r : Resource) : List Step :=
  let base := if r.isProvider then "pulumi.ProviderResource" else "pulumi.CustomResource"
  suite s!"class {r.name}({base}):"
    (r.outputs.flatMap output ++
      (if r.outputs.isEmpty then [] else blank) ++
      constructor r ++
      (if r.isProvider then [] else lookUp r) ++
      nameLookups)

end ResourceFile

def resourceFile (module : String) (r : Resource) : String :=
  sourceText (importLines module ++ blank ++ blank ++ ResourceFile.classSteps r)

namespace DataSourceFile

/-- A result put into the object, after a check of its class. -/
def result (p : Property) : List Step :=
  let name := fieldName p
  (match resultClass? p.type with
   | some c =>
     suite s!"if {name} and not isinstance({name}, {c}):"
       (line s!"raise TypeError(\"Expected argument '{name}' to be a {c}\")")
   | none => []) ++
  line s!"__self__.{name} = {name}" ++ docstring p.doc

def resultClass (f : DataSource) : List Step :=
  suite s!"class {f.resultTypeName}:"
    (docstringLines s!"A collection of values returned by {f.name}." ++
      suite ("def __init__(" ++ ", ".intercalate ("__self__" :: f.results.map parameter) ++ "):")
        (if f.results.isEmpty then line "pass" else f.results.flatMap result))

def functionDoc (f : DataSource) : String :=
  "\n".intercalate ((if f.doc = "" then [] else [Text.trimEnd f.doc ++ "\n"]) ++
    f.arguments.map (fun p => parameterLine (inputTypeText p.type) p))

def returned (f : DataSource) : List Step :=
  if f.results.isEmpty then line s!"return {f.resultTypeName}()"
  else suite s!"return {f.resultTypeName}("
    (lines (commaSeparated ")" (f.results.map (fun p => fieldName p ++ "=__ret__.get('" ++ p.name ++ "')"))))

def functionName (f : DataSource) : String := Convention.python.fieldName f.name

def functionSteps (f : DataSource) : List Step :=
  suite (s!"async def {functionName f}(" ++ ", ".intercalate (f.arguments.map parameter ++ ["opts=None"]) ++
      s!") -> {f.resultTypeName}:")
    (docstringLines (functionDoc f) ++
      line "__args__ = dict()" ++
      (if f.arguments.isEmpty then [] else blank) ++
      f.arguments.flatMap (fun p => requiredCheck p ++ line s!"__args__['{p.name}'] = {fieldName p}") ++
      suite "if opts is None:" (line "opts = pulumi.InvokeOptions()") ++
      fillVersion ++
      line ("__ret__ = pulumi.runtime.invoke('" ++ f.token.render ++ "', __args__, opts=opts).value") ++
      blank ++
      returned f)

end DataSourceFile

def dataSourceFile (module : String) (f : DataSource) : String :=
  sourceText (importLines module ++ blank ++ blank ++ DataSourceFile.resultClass f ++ blank ++ blank ++
    DataSourceFile.functionSteps f)

namespace ConfigFile

def reader (p : Property) : String :=
  (if p.optional then "get" else "require") ++
  match p.type with
  | .string => ""
  | .bool => "_bool"
  | .int => "_int"
  | .float => "_float"
  | _ => "_object"

def accessor (p : Property) : List Step :=
  line (fieldName p ++ " = __config__." ++ reader p ++ "('" ++ p.name ++ "')") ++
    docstring p.doc ++ fillDefault p

end ConfigFile

def configFile (package : String) (configVariables : List Property) : String :=
  sourceText (importLines configModule ++ blank ++ line ("__config__ = pulumi.Config('" ++ package ++ "')") ++
    configVariables.flatMap (fun p => blank ++ ConfigFile.accessor p))

end ProviderSdk.PythonLibrary
