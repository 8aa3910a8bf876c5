import ProviderSdk.Text.Split

/-!
# Type tokens

A token `package:module:Name` identifies a resource, a data source or a type in every generated
library. The module part may carry the stem of the file, as in `package:module/file:Name`.
-/

namespace ProviderSdk

def rootModule : String := "index"

/-- What identifies a resource, a data source or a type. -/
structure Token where
  package : String
  /-- The module as it is written; see `Token.module` for the module it means. -/
  modulePart : String
  fileStem : Option String
  name : String
  deriving DecidableEq, Repr, Inhabited

inductive TokenError where
  | invalid (text : String)
  | nestedModule (text : String)
  deriving DecidableEq, Repr

def TokenError.message : TokenError → String
  | .invalid text => s!"invalid token '{text}', expected 'package:module:name'"
  | .nestedModule text => s!"Modules nested more than one level deep not currently supported: '{text}'"

namespace Token

/-- A token without file stem, from its parts. -/
def of (package module name : String) : Token := ⟨package, module, none, name⟩

def provider (package : String) : Token := of "pulumi" "providers" package

def module (t : Token) : String := if t.modulePart = "" then rootModule else t.modulePart

def isRoot (t : Token) : Bool := t.module == rootModule

def render (t : Token) : String :=
  match t.fileStem with
  | some file => s!"{t.package}:{t.modulePart}/{file}:{t.name}"
  | none => s!"{t.package}:{t.modulePart}:{t.name}"

def parse (text : String) : Except TokenError Token :=
  match Text.splitAt ':' text.toList with
  | [package, module, name] =>
    if package.isEmpty || name.isEmpty then .error (.invalid text)
    else match Text.splitAt '/' module with
      | [module] => .ok ⟨String.ofList package, String.ofList module, none, String.ofList name⟩
      | [module, file] =>
        .ok ⟨String.ofList package, String.ofList module, some (String.ofList file), String.ofList name⟩
      | _ => .error (.nestedModule text)
  | _ => .error (.invalid text)

end Token

end ProviderSdk
