import ProviderSdk.Package.Property

/-!
# Python types

How the type of a property is annotated in Python. Objects are dictionaries, and custom types are
not annotated further.
-/

namespace ProviderSdk.PythonLibrary

def inputOf (type : String) : String := "pulumi.Input[" ++ type ++ "]"

def typeText : TypeRef → String
  | .bool => "bool"
  | .int => "int"
  | .float => "float"
  | .string => "str"
  | .array element => "Sequence[" ++ typeText element ++ "]"
  | .map element => "Mapping[str, " ++ typeText element ++ "]"
  | .object _ => "dict"
  | .custom _ => "Any"
  | .asset kind => "pulumi." ++ kind.className
  termination_by structural t => t

def inputTypeText : TypeRef → String
  | .array element => "Sequence[" ++ inputOf (inputTypeText element) ++ "]"
  | .map element => "Mapping[str, " ++ inputOf (inputTypeText element) ++ "]"
  | .bool => "bool"
  | .int => "int"
  | .float => "float"
  | .string => "str"
  | .object _ => "dict"
  | .custom _ => "Any"
  | .asset kind => "pulumi." ++ kind.className
  termination_by structural t => t

def resultClass? : TypeRef → Option String
  | .bool => some "bool"
  | .int => some "int"
  | .float => some "float"
  | .string => some "str"
  | .array _ => some "list"
  | .map _ => some "dict"
  | .object _ => some "dict"
  | .custom _ => none
  | .asset _ => none

end ProviderSdk.PythonLibrary
