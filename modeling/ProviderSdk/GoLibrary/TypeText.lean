import ProviderSdk.Package.Property

/-!
# Go types

How the type of a property is written in Go: as an input or output of the run-time library, or as
the plain type that is sent. Objects are maps without further type, and custom types are texts. An
optional primitive is a pointer.
-/

namespace ProviderSdk.GoLibrary

/-- The run-time library's word for a primitive type. -/
def primitive? : TypeRef → Option String
  | .bool => some "Bool"
  | .int => some "Int"
  | .float => some "Float64"
  | .string => some "String"
  | .custom _ => some "String"
  | _ => none

/-- The run-time library's word for what a collection holds. -/
def elementWord (element : TypeRef) : String :=
  match primitive? element, element with
  | some word, _ => word
  | none, .object _ => "Map"
  | none, _ => ""

def typeWord : TypeRef → String
  | .array element => elementWord element ++ "Array"
  | .map element => elementWord element ++ "Map"
  | .object _ => "Map"
  | .asset kind => kind.className
  | type => (primitive? type).getD "Any"

def typeText (type : TypeRef) : String := "pulumi." ++ typeWord type ++ "Output"

def inputTypeText (type : TypeRef) : String := "pulumi." ++ typeWord type ++ "Input"

def plainTypeText : TypeRef → String
  | .bool => "bool"
  | .int => "int"
  | .float => "float64"
  | .string => "string"
  | .custom _ => "string"
  | .array element => "[]" ++ plainTypeText element
  | .map element => "map[string]" ++ plainTypeText element
  | .object _ => "map[string]interface\x7b\x7d"
  | .asset _ => "pulumi.AssetOrArchive"
  termination_by structural t => t

def pointerWord? (p : Property) : Option String := if p.optional then primitive? p.type else none

def outputFieldType (p : Property) : String :=
  match pointerWord? p with
  | some word => "pulumi." ++ word ++ "PtrOutput"
  | none => typeText p.type

def inputFieldType (p : Property) : String :=
  match pointerWord? p with
  | some word => "pulumi." ++ word ++ "PtrInput"
  | none => inputTypeText p.type

def plainFieldType (p : Property) : String :=
  match pointerWord? p with
  | some _ => "*" ++ plainTypeText p.type
  | none => plainTypeText p.type

end ProviderSdk.GoLibrary
