import ProviderSdk.Package.Tree

/-!
# Packages as JSON

How the parts of a package are written as JSON. Members stand in a fixed order; empty texts, absent
values and false flags are left out where they say nothing.
-/

namespace ProviderSdk

namespace Serialized

def textUnlessEmpty (key s : String) : List (String × Json) := if s = "" then [] else [(key, .str s)]

/-- A member that is left out if the value is absent. -/
def ifPresent {α : Type} (key : String) (f : α → Json) : Option α → List (String × Json)
  | some a => [(key, f a)]
  | none => []

/-- A member that is left out if the flag is not set. -/
def ifTrue (key : String) (b : Bool) : List (String × Json) := if b then [(key, .bool true)] else []

def literal : Literal → Json
  | .bool b => .bool b
  | .int n => .num (.int n)
  | .float x => .num (.float x)
  | .string s => .str s

def defaultValue (d : DefaultValue) : Json :=
  .obj (ifPresent "literal" literal d.literal ++
    (if d.envVars.isEmpty then [] else [("envVars", Json.texts d.envVars)]) ++ ifTrue "computed" d.computed)

def token (t : Token) : Json := .str t.render

def assetKind : AssetKind → Json
  | .asset => .str "asset"
  | .archive => .str "archive"

def tagged (type : String) (content : Json) : Json := .obj [("type", .str type), ("of", content)]

def plain (type : String) : Json := .obj [("type", .str type)]

mutual

def typeRef : TypeRef → Json
  | .bool => plain "bool"
  | .int => plain "int"
  | .float => plain "float"
  | .string => plain "string"
  | .array element => tagged "array" (typeRef element)
  | .map element => tagged "map" (typeRef element)
  | .object type => tagged "object" (objectType type)
  | .custom type =>
    tagged "custom" (.obj [("token", token type.token), ("altTypes", .arr (type.altTypes.map token))])
  | .asset kind => tagged "asset" (assetKind kind)
  termination_by structural t => t

def objectType : ObjectType → Json
  | ⟨name, ps⟩ => .obj [("name", .str name), ("properties", .arr (properties ps))]
  termination_by structural t => t

def properties : List Property → List Json
  | [] => []
  | p :: rest => property p :: properties rest
  termination_by structural ps => ps

/-- A property; its description and its position are not part of the JSON form. -/
def property : Property → Json
  | ⟨rawName, name, type, optional, doc, _, default, deprecation, secret, _⟩ =>
    .obj ([("rawName", .str rawName), ("name", .str name), ("type", typeRef type),
      ("optional", .bool optional)] ++
      textUnlessEmpty "doc" doc ++ ifPresent "default" defaultValue default ++
      ifPresent "deprecation" Json.str deprecation ++ ifTrue "secret" secret)
  termination_by structural p => p

end

def resourceMembers (r : Resource) : List (String × Json) :=
  [("token", token r.token), ("name", .str r.name), ("rawName", .str r.rawName),
    ("fileStem", .str r.fileStem)] ++
    textUnlessEmpty "doc" r.doc ++
    [("inputProperties", .arr (properties r.inputs)), ("outputProperties", .arr (properties r.outputs))] ++
    ifTrue "isProvider" r.isProvider ++ ifTrue "deleteBeforeReplace" r.deleteBeforeReplace

def dataSourceMembers (f : DataSource) : List (String × Json) :=
  [("token", token f.token), ("name", .str f.name), ("rawName", .str f.rawName),
    ("fileStem", .str f.fileStem)] ++
    textUnlessEmpty "doc" f.doc ++
    [("args", .arr (properties f.arguments)), ("results", .arr (properties f.results))]

def resource (r : Resource) : Json := .obj (resourceMembers r)

def dataSource (f : DataSource) : Json := .obj (dataSourceMembers f)

def dependencies (m : Dependencies) : Json := .obj (m.map (fun (k, v) => (k, .str v)))

def metadataMembers (m : PackageMetadata) : List (String × Json) :=
  [("description", .str m.description), ("keywords", Json.texts m.keywords), ("homepage", .str m.homepage),
    ("repository", .str m.repository), ("license", .str m.license)]

def metadata (m : PackageMetadata) : Json := .obj (metadataMembers m)

def packaging (o : PackagingOptions) : Json :=
  .obj [
    ("javascript", .obj [("dependencies", dependencies o.typeScriptDependencies),
      ("devDependencies", dependencies o.typeScriptDevDependencies),
      ("peerDependencies", dependencies o.typeScriptPeerDependencies)]),
    ("python", .obj [("requires", dependencies o.pythonRequirements)]),
    ("dotnet", .obj [("packageReferences", dependencies o.cSharpReferences)]),
    ("go", .obj [("importBasePath", Json.option Json.str o.goImportBasePath)])]

def provenance (p : Provenance) : Json :=
  .obj [("repo", .str p.repository), ("tag", Json.option Json.str p.tag),
    ("commit", Json.option Json.str p.commit)]

def propertyMembers (p : Property) : List (String × Json) := ((property p).members?).getD []

def member : Member → Json
  | .resource r => .obj (("kind", .str "resource") :: resourceMembers r)
  | .dataSource f => .obj (("kind", .str "function") :: dataSourceMembers f)
  | .variable v => .obj (("kind", .str "variable") :: propertyMembers v)
  | .overlay o => .obj [("kind", .str "overlay"), ("name", .str o.name), ("source", .str o.source.text)]

def module (m : Module) : Json := .obj [("name", .str m.name), ("members", .arr (m.members.map member))]

def package (p : Package) : Json :=
  .obj [("name", .str p.name), ("version", .str p.version), ("metadata", metadata p.metadata),
    ("language", packaging p.packaging), ("provenance", Json.option provenance p.provenance),
    ("modules", .arr (p.modules.map module))]

end Serialized

end ProviderSdk
