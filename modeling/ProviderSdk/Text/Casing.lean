import ProviderSdk.Text.Case
import ProviderSdk.Text.Split

/-!
# Cases of identifiers

Camel, Pascal and snake case of names whose parts are separated by underscores or dashes, and the
canonical names of schema keys. The canonical name of `instance_type` is `instanceType`; a key may
end in one colon, which is not part of its name.
-/

namespace ProviderSdk.Text

/-- Underscore and dash separate the parts of a name. -/
def isJoint (c : Char) : Bool := c == '_' || c == '-'

/-- Every part of a name with its first letter in upper case, joined. -/
def pascalChars (cs : List Char) : List Char := (splitWhere isJoint cs).flatMap capitalized

/-- The first part of a name as it is, every other with its first letter in upper case, joined. -/
def camelChars (cs : List Char) : List Char :=
  match splitWhere isJoint cs with
  | [] => []
  | part :: parts => part ++ parts.flatMap capitalized

/-- `hello_world` becomes `HelloWorld`. -/
def pascalCase (s : String) : String := String.ofList (pascalChars s.toList)

/-- `hello_world` becomes `helloWorld`. -/
def camelCase (s : String) : String := String.ofList (camelChars s.toList)

/-- The lower-case form of a character, behind an underscore if the character is upper-case. -/
def underscored (c : Char) : List Char := if isUppercase c then '_' :: lowerOf c else [c]

/-- The snake case of a name by its letters: every upper-case letter but the first begins a part. -/
def snakeChars (cs : List Char) : List Char :=
  let letters := match cs with
    | [] => []
    | c :: rest => lowerOf c ++ rest.flatMap (fun c => if isUppercase c then '_' :: lowerOf c else lowerOf c)
  letters.map (fun c => if c = '-' then '_' else c)

/-- `HelloWorld` becomes `hello_world`. -/
def snakeCase (s : String) : String := String.ofList (snakeChars s.toList)

def withoutColon (cs : List Char) : List Char := (beforeEnd? [':'] cs).getD cs

def canonicalName (key : String) : String := String.ofList (camelChars (withoutColon key.toList))

def canonicalTypeName (key : String) : String := String.ofList (pascalChars (withoutColon key.toList))

/-- The schema key that a canonical name without acronyms belongs to. -/
def keyOfCanonicalName (name : String) : String := String.ofList (name.toList.flatMap underscored)

end ProviderSdk.Text
