import ProviderSdk.Library.Emission
import ProviderSdk.Text.Case
import ProviderSdk.Text.Split

/-!
# Identifiers of a Go package

All members of a module share the scope of one package. A resource declares its type, the functions
that create it and look it up, and two types of arguments; a data source a function with its types
of arguments and results. A data source whose function would have the name of a resource's look-up
gets another name; any other clash is an error.
-/

namespace ProviderSdk.GoLibrary

structure Declared where
  identifier : String
  owner : String
  deriving DecidableEq, Repr

def newName (r : Resource) : String := "New" ++ r.name

def getName (r : Resource) : String := "Get" ++ r.name

def plainArgsName (r : Resource) : String := Text.lowerFirst r.argsTypeName

def resourceIdentifiers (r : Resource) : List String :=
  [r.name, newName r, plainArgsName r, r.argsTypeName] ++ (if r.isProvider then [] else [getName r])

/-- The identifiers that a data source declares whose function has the given name. -/
def functionIdentifiers (name : String) : List String := [name, name ++ "Args", name ++ "Result"]

def owner? (declared : List Declared) (identifier : String) : Option String :=
  (declared.find? (fun d => d.identifier == identifier)).map Declared.owner

def declare (owner : String) (declared : List Declared) (identifier : String) :
    Except EmitCause (List Declared) :=
  match owner? declared identifier with
  | some first => .error (.identifierTwice identifier first owner)
  | none => .ok (declared ++ [⟨identifier, owner⟩])

def declareAll (owner : String) (declared : List Declared) (identifiers : List String) :
    Except EmitCause (List Declared) :=
  identifiers.foldlM (declare owner) declared

def resourceOwner (r : Resource) : String := "resource " ++ r.token.render

def dataSourceOwner (f : DataSource) : String := "data source " ++ f.token.render

def declareResources (rs : List Resource) : Except EmitCause (List Declared) :=
  rs.foldlM (fun declared r => declareAll (resourceOwner r) declared (resourceIdentifiers r)) []

/-- The name of a data source's function next to what is declared already. -/
def functionNameBeside (declared : List Declared) (f : DataSource) : String :=
  let name := Text.upperFirst f.name
  if (owner? declared name).isSome then
    match Text.dropStart? "Get" name with
    | some rest => "Lookup" ++ rest
    | none => name
  else name

abbrev FunctionNames := List (String × String)

/-- Names data sources one after the other, each next to all that stands before it. -/
def nameFunctions (declared : List Declared) : List DataSource → Except EmitCause FunctionNames
  | [] => .ok []
  | f :: rest => do
    let name := functionNameBeside declared f
    let declared ← declareAll (dataSourceOwner f) declared (functionIdentifiers name)
    let names ← nameFunctions declared rest
    .ok ((f.name, name) :: names)

def functionNames (m : Module) : Except EmitCause FunctionNames := do
  nameFunctions (← declareResources m.resources) m.dataSources

def FunctionNames.nameOf (names : FunctionNames) (f : DataSource) : String :=
  (names.lookup f.name).getD (Text.upperFirst f.name)

end ProviderSdk.GoLibrary
