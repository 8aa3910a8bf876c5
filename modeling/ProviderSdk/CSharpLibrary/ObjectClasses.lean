import ProviderSdk.CSharpLibrary.SourceFile
import ProviderSdk.CSharpLibrary.TypeText

/-!
# C# classes of arguments and results

Classes that hold arguments, classes that hold results, and the classes of the object types inside
the types of properties, of which every name is declared once.
-/

namespace ProviderSdk.CSharpLibrary

open Code

inductive ArgumentUse where
  | resource
  | invoke
  deriving DecidableEq, Repr

namespace ArgumentUse

def baseClass : ArgumentUse → String
  | .resource => "Pulumi.ResourceArgs"
  | .invoke => "Pulumi.InvokeArgs"

def typeText (use : ArgumentUse) (type : TypeRef) : String :=
  match use with
  | .resource => inputTypeText type
  | .invoke => plainTypeText type

end ArgumentUse

def argumentProperty (use : ArgumentUse) (className : String) (p : Property) : List Step :=
  let type := use.typeText p.type
  let name := propertyName p.name className
  let access := braced " get; set; "
  summary p.doc ++
    (match p.deprecation with
     | some message => line ("[Obsolete(" ++ verbatim message ++ ")]")
     | none => []) ++
    (if p.optional then
      line ("[Input(" ++ Json.quoted p.name ++ ")]") ++ line s!"public {orNull type} {name} {access}"
     else
      line ("[Input(" ++ Json.quoted p.name ++ ", required: true)]") ++
        line s!"public {type} {name} {access} = null!;") ++
    blank

def argumentClass (use : ArgumentUse) (name doc : String) (ps : List Property) : ClassCode where
  name := name
  steps :=
    summaryLines doc ++
    blockBelow s!"public sealed class {name} : {use.baseClass}"
      (ps.flatMap (argumentProperty use name) ++
        blockBelow s!"public {name}()" (ps.flatMap (fun p =>
          match defaultText? p with
          | some value => line (propertyName p.name name ++ " = " ++ value ++ ";")
          | none => [])))

def parameterName (p : Property) : String := Convention.cSharp.fieldName p.name

/-- The head of a constructor; several parameters stand on lines of their own. -/
def constructorHead (name : String) (parameters : List String) : List Step :=
  match parameters with
  | _ :: _ :: _ => suite s!"private {name}(" (lines (commaSeparated ")" parameters))
  | few => line (s!"private {name}(" ++ ", ".intercalate few ++ ")")

def resultClass (name doc : String) (ps : List Property) : ClassCode where
  name := name
  steps :=
    summaryLines doc ++
    line "[OutputType]" ++
    blockBelow s!"public sealed class {name}"
      (ps.flatMap (fun p =>
          summary p.doc ++ line s!"public readonly {outputTypeText p} {propertyName p.name name};") ++
        (if ps.isEmpty then [] else blank) ++
        line "[OutputConstructor]" ++
        constructorHead name (ps.map (fun p => outputTypeText p ++ " " ++ parameterName p)) ++
        braceBlock (ps.flatMap (fun p => line s!"{propertyName p.name name} = {parameterName p};")))

def nestedObjects (ps : List Property) : List (Position × ObjectType) :=
  ps.flatMap (fun p => p.type.objects.map (fun o => (p.position, o)))

def firstByName (known : List String) : List (Position × ObjectType) → List (Position × ObjectType)
  | [] => []
  | (position, o) :: rest =>
    if known.contains o.name then firstByName known rest
    else (position, o) :: firstByName (o.name :: known) rest

def objectClass (use : ArgumentUse) : Position × ObjectType → ClassCode
  | (.input, o) => argumentClass use o.name "" o.properties
  | (.output, o) => resultClass o.name "" o.properties

def objectClasses (use : ArgumentUse) (ps : List Property) : List ClassCode :=
  (firstByName [] (nestedObjects ps)).map (objectClass use)

end ProviderSdk.CSharpLibrary
