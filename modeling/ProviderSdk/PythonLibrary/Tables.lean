import ProviderSdk.PythonLibrary.SourceFile

/-!
# Tables of names

The file of tables that lead from the Python names of properties to their canonical names and back.
Only names that differ are listed; of properties with one name the last stands.
-/

namespace ProviderSdk.PythonLibrary

open Code

abbrev NameTable := List (String × String)

namespace Tables

def withNested (p : Property) : List Property := p :: p.type.objects.flatMap ObjectType.properties

/-- The properties of a module: those of variables, of resources and of data sources. -/
def moduleProperties (m : Module) : List Property :=
  m.configVariables ++ m.resources.flatMap (fun r => r.inputs ++ r.outputs) ++
    m.dataSources.flatMap (fun f => f.arguments ++ f.results)

def allProperties (p : Package) : List Property :=
  p.modules.flatMap (fun m => (moduleProperties m).flatMap withNested)

/-- The name in Python and the canonical name, if they differ. -/
def entry? (p : Property) : Option (String × String) :=
  if fieldName p = p.name then none else some (fieldName p, p.name)

def toCanonical (p : Package) : NameTable := Json.Members.sorted ((allProperties p).filterMap entry?)

def inverse (t : NameTable) : NameTable := Json.Members.sorted (t.map (fun (a, b) => (b, a)))

def definition (name : String) (t : NameTable) : List Step :=
  if t.isEmpty then line (name ++ " = " ++ braced "")
  else line (name ++ " = " ++ openBrace) ++ lines (t.map (fun (k, v) => s!"    \"{k}\": \"{v}\",")) ++
    line closeBrace

end Tables

open Tables in
def tablesFile (p : Package) : String :=
  let names := toCanonical p
  sourceText (definition "_SNAKE_TO_CAMEL_CASE_TABLE" names ++ blank ++
    definition "_CAMEL_TO_SNAKE_CASE_TABLE" (inverse names))

end ProviderSdk.PythonLibrary
