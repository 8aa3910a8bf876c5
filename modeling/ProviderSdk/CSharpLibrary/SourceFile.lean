import ProviderSdk.Banner
import ProviderSdk.Code.Step
import ProviderSdk.Convention
import ProviderSdk.Disk.Path
import ProviderSdk.Library.Default
import ProviderSdk.Package.Tree
import ProviderSdk.Text.Split

/-!
# C# source files

A source file has classes in one namespace. The root module and the module of configuration
variables share the namespace of the package; every other module has one of its own.
-/

namespace ProviderSdk.CSharpLibrary

open Code

def rootNamespace (package : String) : String := "Pulumi." ++ Text.pascalCase package

def moduleNamespace (package module : String) : String :=
  if module = rootModule ∨ module = configModule then rootNamespace package
  else rootNamespace package ++ "." ++ Text.pascalCase module

def moduleDirectory (module : String) : Path := if module = rootModule then ⟨""⟩ else ⟨Text.pascalCase module⟩

structure ClassCode where
  name : String
  steps : List Step
  deriving Inhabited

structure SourceFile where
  scope : String
  classes : List ClassCode
  deriving Inhabited

def usingLines : List Step :=
  lines ["using System;", "using System.Collections.Generic;", "using System.Collections.Immutable;",
    "using System.Threading.Tasks;", "using Pulumi.Serialization;"]

def SourceFile.steps (f : SourceFile) : List Step :=
  usingLines ++ blank ++ blockBelow ("namespace " ++ f.scope) (spaced (f.classes.map (·.steps)))

def SourceFile.content (f : SourceFile) : String := CommentStyle.slash.banner ++ Code.text .four f.steps

def propertyName (name className : String) : String :=
  let pascal := Text.pascalCase name
  if pascal = className then pascal ++ "Value" else pascal

/-- A verbatim string: quotes are written twice, all else as it is. -/
def verbatim (s : String) : String := "@\"" ++ Text.replace s "\"" "\"\"" ++ "\""

/-- Defaults: helpers of the utilities class, and `??` between what is tried. -/
def defaultStyle : DefaultStyle where
  trueWord := "true"
  falseWord := "false"
  numbers := positionalNumbers
  helper
    | .bool => "Utilities.GetEnvBoolean"
    | .int => "Utilities.GetEnvInt32"
    | .float => "Utilities.GetEnvDouble"
    | .text => "Utilities.GetEnv"
  variableName := Json.quoted

def defaultText? (p : Property) : Option String :=
  p.defaultExpression?.map (fun e => " ?? ".intercalate (defaultStyle.alternatives e))

def whenever (condition : String) (body : List Step) : List Step :=
  blockBelow ("if (" ++ condition ++ ")") body

def argumentChecks (argsType : String) (ps : List Property) : List Step :=
  whenever "args == null" (line "throw new ArgumentNullException(nameof(args));") ++
    (ps.filter Property.needsCheck).flatMap (fun p =>
      whenever ("args." ++ propertyName p.name argsType ++ " == null")
        (line ("throw new ArgumentNullException(" ++ Json.quoted p.name ++
          s!", \"Missing required property '{p.name}'\");")))

end ProviderSdk.CSharpLibrary
