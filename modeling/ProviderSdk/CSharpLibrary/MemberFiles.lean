import ProviderSdk.CSharpLibrary.ObjectClasses
import ProviderSdk.CSharpLibrary.SourceFile
import ProviderSdk.CSharpLibrary.TypeText
import ProviderSdk.Package.Member

/-!
# C# files of members

The class of a resource with the class of its arguments, the class that invokes a data source with
the classes of its arguments and results, and a class with one property for every variable of the
configuration. The classes of object types stand in the file of the member that has them.
-/

namespace ProviderSdk.CSharpLibrary

open Code

namespace ResourceFile

def optionsClass (r : Resource) : String :=
  if r.isProvider then "ResourceOptions" else "CustomResourceOptions"

def engineType (r : Resource) : String := if r.isProvider then r.token.name else r.token.render

/-- A summary with further comments on parameters behind an empty comment line. -/
def parameterDoc (summary : String) (parameters : List (String × String)) : List Step :=
  lines (["/// <summary>", "/// " ++ summary, "/// </summary>", "///"] ++
    parameters.map (fun (name, text) => s!"/// <param name=\"{name}\">{text}</param>"))

def output (r : Resource) (p : Property) : List Step :=
  summary p.doc ++
    line ("[Output(" ++ Json.quoted p.name ++ ")]") ++
    line (s!"public Output<{outputTypeText p}> {propertyName p.name r.name} " ++
      braced " get; private set; " ++
      " = null!;") ++
    blank

def creation (r : Resource) : List Step :=
  let required := r.hasRequiredInputs
  let parameter := if required then s!"{r.argsTypeName} args" else s!"{r.argsTypeName}? args = null"
  let argument := if required then "CheckArgs(args)" else s!"args ?? new {r.argsTypeName}()"
  let options := if r.isProvider then "MakeResourceOptions(options)" else "MakeResourceOptions(options, \"\")"
  parameterDoc s!"Create a {r.name} resource with the given unique name, arguments, and options."
      [("name", "The unique name of the resource"),
        ("args", "The arguments used to populate this resource's properties"),
        ("options", "A bag of options that control this resource's behavior")] ++
    suite s!"public {r.name}(string name, {parameter}, {optionsClass r}? options = null)"
      (line (": base(" ++ Json.quoted (engineType r) ++ s!", name, {argument}, {options})")) ++
    braceBlock []

/-- The constructor for a resource that is there already. -/
def adoption (r : Resource) : List Step :=
  blank ++
    suite s!"private {r.name}(string name, Input<string> id, CustomResourceOptions? options = null)"
      (line (": base(" ++ Json.quoted (engineType r) ++ ", name, null, MakeResourceOptions(options, id))")) ++
    braceBlock []

def checkArgs (r : Resource) : List Step :=
  blank ++
    blockBelow s!"private static {r.argsTypeName} CheckArgs({r.argsTypeName} args)"
      (argumentChecks r.argsTypeName r.inputs ++ line "return args;")

def makeOptions (r : Resource) : List Step :=
  let options := optionsClass r
  let merged := s!"{options}.Merge(defaultOptions, options);"
  blank ++
    blockBelow (s!"private static {options} MakeResourceOptions({options}? options" ++
        (if r.isProvider then ")" else ", Input<string>? id)"))
      (line s!"var defaultOptions = new {options}" ++
        line openBrace ++
        nested (line "Version = Utilities.Version," ++
          (if r.deleteBeforeReplace then line "DeleteBeforeReplace = true," else [])) ++
        line (closeBrace ++ ";") ++
        (if r.isProvider then line ("return " ++ merged)
         else lines ["var merged = " ++ merged, "merged.Id = id ?? merged.Id;", "return merged;"]))

def lookUp (r : Resource) : List Step :=
  blank ++
    parameterDoc s!"Get an existing {r.name} resource's state with the given name and ID."
      [("name", "The unique name of the resulting resource."),
        ("id", "The unique provider ID of the resource to lookup."),
        ("options", "A bag of options that control this resource's behavior")] ++
    blockBelow
      s!"public static {r.name} Get(string name, Input<string> id, CustomResourceOptions? options = null)"
      (line s!"return new {r.name}(name, id, options);")

def resourceClass (r : Resource) : ClassCode where
  name := r.name
  steps :=
    let base := if r.isProvider then "Pulumi.ProviderResource" else "Pulumi.CustomResource"
    summaryLines r.doc ++
    blockBelow s!"public partial class {r.name} : {base}"
      (r.outputs.flatMap (output r) ++ creation r ++
        (if r.isProvider then [] else adoption r) ++
        (if r.hasRequiredInputs then checkArgs r else []) ++
        makeOptions r ++
        (if r.isProvider then [] else lookUp r))

end ResourceFile

def resourceFile (package module : String) (r : Resource) : SourceFile where
  scope := moduleNamespace package module
  classes :=
    [ResourceFile.resourceClass r,
      argumentClass .resource r.argsTypeName s!"The set of arguments for constructing a {r.name} resource."
        r.inputs] ++
      objectClasses .resource (r.inputs ++ r.outputs)

namespace DataSourceFile

def className (f : DataSource) : String := Text.upperFirst f.name

def invokeClass (f : DataSource) : ClassCode where
  name := className f
  steps :=
    let required := f.hasRequiredArguments
    let parameter := if required then s!"{f.argsTypeName} args" else s!"{f.argsTypeName}? args = null"
    let argument := if required then "args" else s!"args ?? new {f.argsTypeName}()"
    blockBelow s!"public static class {className f}"
      (summaryLines f.doc ++
        blockBelow (s!"public static Task<{f.resultTypeName}> InvokeAsync({parameter}, " ++
            "InvokeOptions? options = null)")
          ((if required then argumentChecks f.argsTypeName f.arguments else []) ++
            line (s!"return Pulumi.Deployment.Instance.InvokeAsync<{f.resultTypeName}>(" ++
              Json.quoted f.token.render ++ s!", {argument}, options.WithVersion());")))

end DataSourceFile

def dataSourceFile (package module : String) (f : DataSource) : SourceFile where
  scope := moduleNamespace package module
  classes :=
    [DataSourceFile.invokeClass f,
      argumentClass .invoke f.argsTypeName s!"A collection of arguments for invoking {f.name}." f.arguments,
      resultClass f.resultTypeName s!"A collection of values returned by {f.name}." f.results] ++
      objectClasses .invoke (f.arguments ++ f.results)

namespace ConfigFile

def className : String := "Config"

def reader (p : Property) : String :=
  (if p.optional then "Get" else "Require") ++
  match p.type with
  | .string => ""
  | .bool => "Boolean"
  | .int => "Int32"
  | .float => "Double"
  | type => "Object<" ++ typeText type ++ ">"

def hasLiteral (p : Property) : Bool := p.default.any (fun d => d.literal.isSome)

def accessor (p : Property) : List Step :=
  let read := "__config." ++ reader p ++ "(" ++ Json.quoted p.name ++ ")"
  let type := if p.optional && !hasLiteral p then nullableTypeText p.type else typeText p.type
  let value := match defaultText? p with
    | some value => read ++ " ?? " ++ value
    | none => read
  summary p.doc ++
    line (s!"public static {type} {propertyName p.name className} " ++ braced " get; set; " ++
      " = " ++ value ++ ";")

end ConfigFile

open ConfigFile in
def configFile (package : String) (configVariables : List Property) : SourceFile where
  scope := rootNamespace package
  classes := [{
    name := className
    steps :=
      blockBelow s!"public static class {className}"
        (line ("private static readonly Pulumi.Config __config = new Pulumi.Config(" ++
          Json.quoted package ++ ");") ++
          configVariables.flatMap (fun p => blank ++ accessor p)) }]

end ProviderSdk.CSharpLibrary
