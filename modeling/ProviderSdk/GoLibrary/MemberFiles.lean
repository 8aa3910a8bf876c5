import ProviderSdk.GoLibrary.Naming
import ProviderSdk.GoLibrary.SourceFile
import ProviderSdk.Text.Case

/-!
# Go files of members

The type of a resource with the functions that create it and look it up, the function that invokes a
data source, both with the types of their arguments, and one function for every variable of the
configuration. A variable that is no primitive is handed on as its JSON text.
-/

namespace ProviderSdk.GoLibrary

open Code

namespace ResourceFile

def resourceType (r : Resource) : Declaration where
  names := [r.name]
  steps :=
    slashLines r.doc ++
    structType r.name
      (line (if r.isProvider then "pulumi.ProviderResourceState" else "pulumi.CustomResourceState") ++
        (if r.outputs.isEmpty then [] else blank) ++
        r.outputs.flatMap (fun p => taggedField p (outputFieldType p)))

def functionHead (name parameters result : String) : List Step :=
  suite s!"func {name}(ctx *pulumi.Context," (line (parameters ++ s!") ({result}, error) " ++ openBrace))

/-- A default put into an argument that is not given. -/
def fillDefault (p : Property) : List Step :=
  match p.defaultExpression?, primitive? p.type with
  | some e, some word =>
    let target := "args." ++ fieldName p
    let assign (value : String) : List Step := line s!"{target} = pulumi.{word}Ptr({value})"
    let fromLiteral := (e.literal.map (fun l => assign (defaultStyle.literal l))).getD []
    whenever (target ++ " == nil")
      (if e.envVariables.isEmpty then fromLiteral
       else line ("if " ++ foundInEnvironment e ++ " " ++ openBrace) ++ nested (assign "d") ++
        (if e.literal.isSome then line (closeBrace ++ " else " ++ openBrace) ++ nested fromLiteral else []) ++
        line closeBrace)
  | _, _ => []

def argumentChecks (r : Resource) : List Step :=
  let required := r.inputs.filter Property.needsCheck
  whenever "args == nil"
      (if r.hasRequiredInputs then line "return nil, errors.New(\"missing one or more required arguments\")"
       else line (s!"args = &{r.argsTypeName}" ++ braced "")) ++
    (if required.isEmpty then [] else blank) ++
    required.flatMap (fun p =>
      whenever s!"args.{fieldName p} == nil"
        (line s!"return nil, errors.New(\"invalid value for required argument '{fieldName p}'\")"))

def creation (r : Resource) : Declaration where
  names := [newName r]
  steps :=
    line (s!"// {newName r} registers a new resource with the given unique name, arguments, and options.") ++
    functionHead (newName r) s!"name string, args *{r.argsTypeName}, opts ...pulumi.ResourceOption"
      s!"*{r.name}" ++
    nested (argumentChecks r ++ r.inputs.flatMap fillDefault ++
      (if r.deleteBeforeReplace then line "opts = append(opts, pulumi.DeleteBeforeReplace(true))" else []) ++
      line "opts = pkgResourceDefaultOpts(opts)" ++
      line s!"var resource {r.name}" ++
      line ("err := ctx.RegisterResource(" ++ Json.quoted r.token.render ++
        ", name, args, &resource, opts...)") ++
      returnError ++
      line "return &resource, nil") ++
    line closeBrace

def lookUp (r : Resource) : Declaration where
  names := [getName r]
  steps :=
    line s!"// {getName r} gets an existing {r.name} resource's state with the given name and ID." ++
    functionHead (getName r) "name string, id pulumi.IDInput, opts ...pulumi.ResourceOption" s!"*{r.name}" ++
    nested (line s!"var resource {r.name}" ++
      line ("err := ctx.ReadResource(" ++ Json.quoted r.token.render ++
        ", name, id, nil, &resource, pkgResourceDefaultOpts(opts)...)") ++
      returnError ++
      line "return &resource, nil") ++
    line closeBrace

def plainArgs (r : Resource) : Declaration where
  names := [plainArgsName r]
  steps := structType (plainArgsName r) (r.inputs.flatMap (fun p => taggedField p (plainFieldType p)))

def inputArgs (r : Resource) : Declaration where
  names := [r.argsTypeName]
  steps :=
    line s!"// The set of arguments for constructing a {r.name} resource." ++
    structType r.argsTypeName (r.inputs.flatMap (fun p =>
      slashed p.doc ++ line s!"{fieldName p} {inputFieldType p}"))

/-- The method that tells the plain type of the arguments; a method is no identifier of the package. -/
def elementType (r : Resource) : Declaration where
  names := []
  steps :=
    block s!"func ({r.argsTypeName}) ElementType() reflect.Type"
      (line s!"return reflect.TypeOf((*{plainArgsName r})(nil)).Elem()")

end ResourceFile

open ResourceFile in
def resourceFile (package module : String) (r : Resource) : SourceFile where
  package := modulePackage package module
  imports := ["reflect", runtimeImport] ++ (if r.hasRequiredInputs then ["errors"] else [])
  declarations :=
    [resourceType r, creation r] ++ (if r.isProvider then [] else [lookUp r]) ++
      [plainArgs r, inputArgs r, elementType r]

namespace DataSourceFile

def function (name : String) (f : DataSource) : Declaration where
  names := [name]
  steps :=
    slashLines f.doc ++
    block
      s!"func {name}(ctx *pulumi.Context, args *{name}Args, opts ...pulumi.InvokeOption) (*{name}Result, error)"
      ((if f.hasRequiredArguments then
          whenever "args == nil" (line "return nil, errors.New(\"missing one or more required arguments\")")
        else []) ++
        line s!"var rv {name}Result" ++
        line ("err := ctx.Invoke(" ++ Json.quoted f.token.render ++
          ", args, &rv, pkgInvokeDefaultOpts(opts)...)") ++
        returnError ++
        line "return &rv, nil")

def plainStruct (name doc : String) (ps : List Property) : Declaration where
  names := [name]
  steps := line ("// " ++ doc) ++ structType name (ps.flatMap (fun p => taggedField p (plainFieldType p)))

end DataSourceFile

open DataSourceFile in
def dataSourceFile (package module name : String) (f : DataSource) : SourceFile where
  package := modulePackage package module
  imports := runtimeImport :: (if f.hasRequiredArguments then ["errors"] else [])
  declarations :=
    [function name f, plainStruct (name ++ "Args") s!"A collection of arguments for invoking {f.name}."
      f.arguments, plainStruct (name ++ "Result") s!"A collection of values returned by {f.name}." f.results]

namespace ConfigFile

/-- The type of a variable and the ending of the functions that read it. -/
def kind : TypeRef → String × String
  | .bool => ("bool", "Bool")
  | .int => ("int", "Int")
  | .float => ("float64", "Float64")
  | _ => ("string", "")

def accessorName (p : Property) : String := "Get" ++ Text.upperFirst p.name

def accessor (package : String) (p : Property) : Declaration where
  names := [accessorName p]
  steps :=
    let (type, ending) := kind p.type
    let read (verb : String) : String :=
      "config." ++ verb ++ ending ++ "(ctx, " ++ Json.quoted (package ++ ":" ++ p.name) ++ ")"
    slashed p.doc ++
    block s!"func {accessorName p}(ctx *pulumi.Context) {type}"
      (match p.defaultExpression? with
       | some e =>
         line ("v, err := " ++ read "Try") ++
         whenever "err == nil" (line "return v") ++
         (if e.envVariables.isEmpty then [] else whenever (foundInEnvironment e) (line "return d")) ++
         line ("return " ++ (e.literal.map defaultStyle.literal).getD "v")
       | none => line ("return " ++ read (if p.optional then "Get" else "Require")))

end ConfigFile

def configFile (package : String) (configVariables : List Property) : SourceFile where
  package := configModule
  imports := [runtimeImport, runtimeImport ++ "/config"]
  declarations := configVariables.map (ConfigFile.accessor package)

end ProviderSdk.GoLibrary
