import ProviderSdk.Banner
import ProviderSdk.Json.Printer
import ProviderSdk.Language
import ProviderSdk.Library.Emission

/-!
# Files of every library

The descriptor of the project, and the file that tells where the provider's schema came from. The
latter is the only file that depends on the provenance of a package.
-/

namespace ProviderSdk.Library

/-- The descriptor: the name, the description as a quoted scalar if there is one, and the target. -/
def descriptorText (p : Package) (language : Language) : String :=
  s!"name: {p.name}\n" ++
    (if p.metadata.description = "" then ""
     else s!"description: {Json.quoted p.metadata.description}\n") ++
    s!"language: {language.name}\n"

def provenanceText : Option Provenance → String
  | none => "Repo: unknown\n"
  | some source =>
    s!"Repo: {source.repository}\n" ++
      ((source.tag.map (fun tag => s!"Tag: {tag}\n")).getD "") ++
      ((source.commit.map (fun commit => s!"Commit: {commit}\n")).getD "")

def versionText (p : Package) : String :=
  s!"Generated by {toolName} from:\n" ++ provenanceText p.provenance ++ "\n"

def commonEntries (p : Package) (language : Language) : List PlanEntry :=
  [.fileAt "Pulumi.yaml" (descriptorText p language), .fileAt "VERSION" (versionText p)]

/-- Dependencies with one more, unless there is one of that name. -/
def withDependency (name version : String) (ds : Dependencies) : Dependencies :=
  if (ds.lookup name).isSome then ds else Json.insertMember name version ds

end ProviderSdk.Library
