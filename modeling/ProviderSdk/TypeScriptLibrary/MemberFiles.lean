import ProviderSdk.Convention
import ProviderSdk.Package.Member
import ProviderSdk.Package.Tree
import ProviderSdk.TypeScriptLibrary.Reference

/-!
# TypeScript files of members

The class of a resource with the interface of its arguments, the function that invokes a data source with the
interfaces of its arguments and results, and one constant for every variable of the configuration.
-/

namespace ProviderSdk.TypeScriptLibrary

open Code

def engineType (r : Resource) : String := if r.isProvider then r.token.name else r.token.render

namespace ResourceFile

def lookUp (r : Resource) : List Step :=
  starLines (s!"Get an existing {r.name} resource's state with the given name and ID.\n\n" ++
    "@param name The _unique_ name of the resulting resource.\n" ++
    "@param id The _unique_ provider ID of the resource to lookup.\n" ++
    "@param opts Optional settings to control the behavior of the CustomResource.") ++
  block
    ("public static get(name: string, id: pulumi.Input<pulumi.ID>, opts?: pulumi.CustomResourceOptions): " ++
      r.name)
    (line (s!"return new {r.name}(name, undefined as any, " ++ braced " ...opts, id: id " ++ ");")) ++
  blank

def instanceTest (r : Resource) : List Step :=
  starred (s!"Returns true if the given object is an instance of {r.name}. This is designed to work even " ++
    "when multiple copies of the Pulumi SDK have been loaded into the same process.") ++
  block s!"public static isInstance(obj: any): obj is {r.name}"
    (block "if (obj === undefined || obj === null)" (line "return false;") ++
      line s!"return obj[\"__pulumiType\"] === {r.name}.__pulumiType;")

def output (p : Property) : List Step :=
  let type := typeText p.type
  blank ++ starred p.doc ++
    line ("public readonly " ++ p.name ++ "!: pulumi.Output<" ++
      (if p.optional then type ++ " | undefined" else type) ++ ">;")

/-- The check that required inputs are given, unless a resource is looked up. -/
def requiredChecks (r : Resource) : List Step :=
  let required := r.inputs.filter Property.needsCheck
  if required.isEmpty then []
  else block "if (!opts?.id)" (required.flatMap (fun p =>
    block s!"if (args?.{p.name} === undefined)"
      (line s!"throw new Error(\"Missing required property '{p.name}'\");")))

def assignment (p : Property) : List Step :=
  let start := s!"inputs[\"{p.name}\"] = args?.{p.name}"
  match defaultText? p with
  | some value => line (start ++ " ?? " ++ value ++ ";")
  | none => line (start ++ ";")

def constructor (r : Resource) : List Step :=
  let argument := if r.hasRequiredInputs then "args" else "args?"
  let options := if r.isProvider then "pulumi.ResourceOptions" else "pulumi.CustomResourceOptions"
  starLines (s!"Create a {r.name} resource with the given unique name, arguments, and options.\n\n" ++
    "@param name The _unique_ name of the resource.\n" ++
    "@param args The arguments to use to populate this resource's properties.\n" ++
    "@param opts A bag of options that control this resource's behavior.") ++
  block s!"constructor(name: string, {argument}: {r.argsTypeName}, opts?: {options})"
    (line ("const inputs: pulumi.Inputs = " ++ braced "" ++ ";") ++
      requiredChecks r ++
      r.inputs.flatMap assignment ++
      r.outputOnly.flatMap (fun p => line s!"inputs[\"{p.name}\"] = undefined /*out*/;") ++
      (if r.deleteBeforeReplace then line ("opts = " ++ braced " deleteBeforeReplace: true, ...opts " ++ ";")
       else []) ++
      line s!"super({r.name}.__pulumiType, name, inputs, opts);")

def classSteps (r : Resource) : List Step :=
  let base := if r.isProvider then "pulumi.ProviderResource" else "pulumi.CustomResource"
  starLines r.doc ++
  block s!"export class {r.name} extends {base}"
    ((if r.isProvider then [] else lookUp r) ++
      line "/** @internal */" ++
      line s!"public static readonly __pulumiType = \"{engineType r}\";" ++
      blank ++
      instanceTest r ++
      r.outputs.flatMap output ++
      blank ++
      constructor r)

def argsInterface (r : Resource) : Interface where
  name := r.argsTypeName
  doc := s!"The set of arguments for constructing a {r.name} resource."
  members := r.inputs.map (fun p => ⟨p.name, inputOf (inputTypeText p.type), p.doc, p.optional⟩)

end ResourceFile

def resourceFile (module : String) (r : Resource) : SourceFile :=
  .of (Import.runtime :: (if readsEnvironment r.inputs then [utilitiesImport module] else []) ++
      customTypeImports module r.fileStem (r.inputs ++ r.outputs))
    [.ofSteps [r.name] (ResourceFile.classSteps r), (ResourceFile.argsInterface r).item]

namespace DataSourceFile

def parameters (f : DataSource) : List String :=
  (if f.arguments.isEmpty then []
   else [(if f.hasRequiredArguments then "args" else "args?") ++ ": " ++ f.argsTypeName]) ++
    ["opts?: pulumi.InvokeOptions"]

def call (f : DataSource) : List Step :=
  let start := "return pulumi.runtime.invoke(\"" ++ f.token.render ++ "\", "
  if f.arguments.isEmpty then line (start ++ braced "" ++ ", opts);")
  else
    (if f.hasRequiredArguments then [] else line ("args = args || " ++ braced "" ++ ";")) ++
      line (start ++ openBrace) ++
      nested (f.arguments.flatMap (fun p => line s!"\"{p.name}\": args.{p.name},")) ++
      line (closeBrace ++ ", opts);")

def functionSteps (f : DataSource) : List Step :=
  starLines f.doc ++
  block (s!"export async function {f.name}(" ++ ", ".intercalate (parameters f) ++
    s!"): Promise<{f.resultTypeName}>") (call f)

def interface (name doc : String) (ps : List Property) : Interface :=
  ⟨name, doc, ps.map (fun p => ⟨p.name, typeText p.type, p.doc, p.optional⟩)⟩

end DataSourceFile

open DataSourceFile in
def dataSourceFile (module : String) (f : DataSource) : SourceFile :=
  .of (Import.runtime :: customTypeImports module f.fileStem (f.arguments ++ f.results))
    (.ofSteps [f.name] (functionSteps f) ::
      (if f.arguments.isEmpty then []
       else [(interface f.argsTypeName s!"A collection of arguments for invoking {f.name}."
         f.arguments).item]) ++
      [(interface f.resultTypeName s!"A collection of values returned by {f.name}." f.results).item])

namespace ConfigFile

def reader (p : Property) (type : String) : String :=
  let verb := if p.optional then "get" else "require"
  if p.type.isString then verb else verb ++ "Object<" ++ type ++ ">"

def hasLiteral (p : Property) : Bool := p.default.any (fun d => d.literal.isSome)

def constantName (p : Property) : String := Convention.typeScript.fieldName p.name

def constant (p : Property) : Item :=
  let type := typeText p.type
  let read := "__config." ++ reader p type ++ "(\"" ++ p.name ++ "\")"
  let declared := if p.optional && !hasLiteral p then type ++ " | undefined" else type
  let value := match defaultText? p with
    | some value => read ++ " ?? " ++ value
    | none => read
  .ofSteps [constantName p]
    (starred p.doc ++ line ("export const " ++ constantName p ++ ": " ++ declared ++ " = " ++ value ++ ";"))

end ConfigFile

def configFile (package : String) (configVariables : List Property) : SourceFile :=
  .of (Import.runtime :: (if readsEnvironment configVariables then [utilitiesImport configModule] else []) ++
      customTypeImports configModule "vars" configVariables)
    (.ofText ["__config"] ("const __config = new pulumi.Config(\"" ++ package ++ "\");") ::
      configVariables.map ConfigFile.constant)

end ProviderSdk.TypeScriptLibrary
