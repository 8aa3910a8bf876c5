import ProviderSdk.Package.Property

/-!
# C# types

How the type of a property is written in C#. Outputs have immutable collections, arguments of
resources the input wrappers, and arguments of data sources plain collections. Objects have classes
of their own.
-/

namespace ProviderSdk.CSharpLibrary

def typeText : TypeRef → String
  | .bool => "bool"
  | .int => "int"
  | .float => "double"
  | .string => "string"
  | .custom _ => "string"
  | .array element => "ImmutableArray<" ++ typeText element ++ ">"
  | .map element => "ImmutableDictionary<string, " ++ typeText element ++ ">"
  | .object type => type.name
  | .asset kind => kind.className
  termination_by structural t => t

def inputTypeText : TypeRef → String
  | .array element => "InputList<" ++ typeText element ++ ">"
  | .map element => "InputMap<" ++ typeText element ++ ">"
  | type => "Input<" ++ typeText type ++ ">"

def plainTypeText : TypeRef → String
  | .array element => "List<" ++ plainTypeText element ++ ">"
  | .map element => "Dictionary<string, " ++ plainTypeText element ++ ">"
  | .bool => "bool"
  | .int => "int"
  | .float => "double"
  | .string => "string"
  | .custom _ => "string"
  | .object type => type.name
  | .asset kind => kind.className
  termination_by structural t => t

def orNull (type : String) : String := type ++ "?"

/-- A type in output position that has `null` too; an array is empty instead. -/
def nullableTypeText (type : TypeRef) : String :=
  match type with
  | .array _ => typeText type
  | _ => orNull (typeText type)

def outputTypeText (p : Property) : String := if p.optional then nullableTypeText p.type else typeText p.type

theorem typeText_array (element : TypeRef) :
    typeText (.array element) = "ImmutableArray<" ++ typeText element ++ ">" := rfl

theorem typeText_map (element : TypeRef) :
    typeText (.map element) = "ImmutableDictionary<string, " ++ typeText element ++ ">" := rfl

theorem plainTypeText_array (element : TypeRef) :
    plainTypeText (.array element) = "List<" ++ plainTypeText element ++ ">" :=
  rfl

theorem plainTypeText_map (element : TypeRef) :
    plainTypeText (.map element) = "Dictionary<string, " ++ plainTypeText element ++ ">" := rfl

end ProviderSdk.CSharpLibrary
