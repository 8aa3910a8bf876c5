import ProviderSdk.Text.Case

/-!
# Target languages

The languages that libraries are generated for. One of them is no programming language: the schema
target writes the package itself as JSON.
-/

namespace ProviderSdk

inductive Language where
  | nodejs
  | python
  | dotnet
  | go
  | schema
  deriving DecidableEq, Repr, Inhabited

structure UnknownLanguage where
  text : String
  deriving DecidableEq, Repr

/-- What is said about a text that names no target. -/
def UnknownLanguage.message (e : UnknownLanguage) : String :=
  "unknown language '" ++ e.text ++ "', expected one of 'nodejs', 'python', 'dotnet', 'go', 'schema'"

namespace Language

def all : List Language := [.nodejs, .python, .dotnet, .go, .schema]

def name : Language → String
  | .nodejs => "nodejs"
  | .python => "python"
  | .dotnet => "dotnet"
  | .go => "go"
  | .schema => "schema"

def description : Language → String
  | .nodejs => "TypeScript package for Node.js (package.json, tsconfig.json)"
  | .python => "Python package (setup.py, pulumi_<pkg>/)"
  | .dotnet => "C# project (Pulumi.<Pkg>.csproj)"
  | .go => "Go module (go.mod, one package per module)"
  | .schema => "Language-neutral JSON package schema (schema.json)"

def parse (text : String) : Except UnknownLanguage Language :=
  match Text.lower text with
  | "nodejs" => .ok .nodejs
  | "node" => .ok .nodejs
  | "typescript" => .ok .nodejs
  | "ts" => .ok .nodejs
  | "python" => .ok .python
  | "py" => .ok .python
  | "dotnet" => .ok .dotnet
  | "csharp" => .ok .dotnet
  | "cs" => .ok .dotnet
  | "go" => .ok .go
  | "golang" => .ok .go
  | "schema" => .ok .schema
  | "json" => .ok .schema
  | _ => .error ⟨text⟩

end Language

end ProviderSdk
