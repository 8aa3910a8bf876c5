import ProviderSdk.Banner
import ProviderSdk.Code.Step
import ProviderSdk.Convention
import ProviderSdk.Disk.Path
import ProviderSdk.Library.Default
import ProviderSdk.Package.Tree
import ProviderSdk.Text.Blank
import ProviderSdk.Text.Split

/-!
# Python source files

Where the files of a module lie, how they begin, and how properties are named in them.
-/

namespace ProviderSdk.PythonLibrary

open Code

def packageDirectory (package : String) : String := "pulumi_" ++ Text.replace package "-" "_"

def moduleDirectory (package module : String) : Path :=
  let root : Path := ⟨packageDirectory package⟩
  if module = rootModule then root else root.join ⟨module⟩

/-- The line about the encoding, which has to come first, and the banner. -/
def fileHeader : String := "# coding=utf-8\n" ++ CommentStyle.hash.banner

def sourceText (steps : List Step) : String := fileHeader ++ Code.text .four steps

def importLines (module : String) : List Step :=
  lines ["import warnings", "import pulumi", "import pulumi.runtime",
    "from typing import Any, Mapping, Optional, Sequence",
    "from " ++ (if module = rootModule then "." else "..") ++ " import utilities, tables"]

def fieldName (p : Property) : String := Convention.python.fieldName p.name

def fileName (stem : String) : String := Convention.python.fileName stem ++ ".py"

def parameter (p : Property) : String := fieldName p ++ "=None"

def parameterLine (type : String) (p : Property) : String :=
  let start := ":param " ++ type ++ " " ++ fieldName p ++ ":"
  match Text.blankWords p.doc.toList with
  | [] => start
  | words => start ++ " " ++ " ".intercalate (words.map String.ofList)

/-- Defaults: helpers of the utilities file, and `or` between what is tried. -/
def defaultStyle : DefaultStyle where
  trueWord := "True"
  falseWord := "False"
  numbers := positionalNumbers
  helper
    | .bool => "utilities.get_env_bool"
    | .int => "utilities.get_env_int"
    | .float => "utilities.get_env_float"
    | .text => "utilities.get_env"
  variableName := singleQuoted

def defaultText? (p : Property) : Option String :=
  p.defaultExpression?.map (fun e => "(" ++ " or ".intercalate (defaultStyle.alternatives e) ++ ")")

/-- The default put into a name that holds nothing yet. -/
def fillDefault (p : Property) : List Step :=
  match defaultText? p with
  | some value => suite s!"if {fieldName p} is None:" (line (fieldName p ++ " = " ++ value))
  | none => []

def requiredCheck (p : Property) : List Step :=
  if p.needsCheck then
    suite s!"if {fieldName p} is None:" (line s!"raise TypeError('Missing required property {fieldName p}')")
  else []

/-- The library's version put into options that have none. -/
def fillVersion : List Step :=
  suite "if opts.version is None:" (line "opts.version = utilities.get_version()")

end ProviderSdk.PythonLibrary
