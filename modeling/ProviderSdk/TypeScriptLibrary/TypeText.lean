import ProviderSdk.Code.Step
import ProviderSdk.Package.Property
import ProviderSdk.Text.Split

/-!
# TypeScript types

How the type of a property is written in TypeScript. Objects are written out in place. In input
position every nested value may be a promise or an output, so it stands inside `pulumi.Input`.
-/

namespace ProviderSdk.TypeScriptLibrary

open Code (braced)

def inputOf (type : String) : String := "pulumi.Input<" ++ type ++ ">"

/-- An array type; a union is put into parentheses. -/
def arrayOf (element : String) : String :=
  if Text.contains element " | " then "(" ++ element ++ ")[]" else element ++ "[]"

def dictionaryOf (element : String) : String := braced ("[key: string]: " ++ element)

def objectOf (members : List String) : String :=
  if members.isEmpty then braced "" else braced (" " ++ ", ".intercalate members ++ " ")

def optionalMark (optional : Bool) : String := if optional then "?" else ""

def assetText (kind : AssetKind) : String := "pulumi.asset." ++ kind.className

mutual

def typeText : TypeRef → String
  | .bool => "boolean"
  | .int => "number"
  | .float => "number"
  | .string => "string"
  | .array element => arrayOf (typeText element)
  | .map element => dictionaryOf (typeText element)
  | .object type => objectText type
  | .custom type => type.token.name
  | .asset kind => assetText kind
  termination_by structural t => t

def objectText : ObjectType → String
  | ⟨_, ps⟩ => objectOf (memberTexts ps)
  termination_by structural t => t

def memberTexts : List Property → List String
  | [] => []
  | p :: rest => memberText p :: memberTexts rest
  termination_by structural ps => ps

def memberText : Property → String
  | ⟨_, name, type, optional, _, _, _, _, _, _⟩ => name ++ optionalMark optional ++ ": " ++ typeText type
  termination_by structural p => p

end

mutual

def inputTypeText : TypeRef → String
  | .bool => "boolean"
  | .int => "number"
  | .float => "number"
  | .string => "string"
  | .array element => inputOf (inputTypeText element) ++ "[]"
  | .map element => dictionaryOf (inputOf (inputTypeText element))
  | .object type => inputObjectText type
  | .custom type => " | ".intercalate (type.token.name :: type.altTypes.map Token.name)
  | .asset kind => assetText kind
  termination_by structural t => t

def inputObjectText : ObjectType → String
  | ⟨_, ps⟩ => objectOf (inputMemberTexts ps)
  termination_by structural t => t

def inputMemberTexts : List Property → List String
  | [] => []
  | p :: rest => inputMemberText p :: inputMemberTexts rest
  termination_by structural ps => ps

def inputMemberText : Property → String
  | ⟨_, name, type, optional, _, _, _, _, _, _⟩ =>
    name ++ optionalMark optional ++ ": " ++ inputOf (inputTypeText type)
  termination_by structural p => p

end

mutual

def customTokens : TypeRef → List Token
  | .array element => customTokens element
  | .map element => customTokens element
  | .object type => objectTokens type
  | .custom type => type.token :: type.altTypes
  | _ => []
  termination_by structural t => t

def objectTokens : ObjectType → List Token
  | ⟨_, ps⟩ => propertyTokens ps
  termination_by structural t => t

def propertyTokens : List Property → List Token
  | [] => []
  | p :: rest => tokensOfProperty p ++ propertyTokens rest
  termination_by structural ps => ps

def tokensOfProperty : Property → List Token
  | ⟨_, _, type, _, _, _, _, _, _, _⟩ => customTokens type
  termination_by structural p => p

end

end ProviderSdk.TypeScriptLibrary
