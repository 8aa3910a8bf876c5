import ProviderSdk.Compile.Resolution
import ProviderSdk.Language
import ProviderSdk.Package.Tree
import ProviderSdk.Version

/-!
# Assembling packages

The resolved members go into the modules of a package: configuration variables into their own
module, the provider resource into the root, and everything else where its token says. For a target
language its hand-written files are added. A member whose name is taken is left out, with an error.
-/

namespace ProviderSdk

/-- The hand-written files that a document declares for a language. -/
def Document.overlayTree? (d : Document) : Language → Option OverlayTree
  | .nodejs => d.typeScript.overlay
  | .python => d.python.overlay
  | .dotnet => d.cSharp.overlay
  | .go => d.go.overlay
  | .schema => none

/-- A member with the module that it goes to and the item that it is about. -/
structure Placement where
  module : String
  member : Member
  item : String
  deriving Inhabited

/-- The files of a tree with their modules: those of the root from the directory of the tree, those
of a module from the directory of that name in it. Modules below modules are left out. -/
def OverlayTree.placedFiles (tree : OverlayTree) (base : Path) : List (String × OverlayFile) :=
  tree.files.map (fun file => (rootModule, ⟨file, base.child file⟩)) ++
    tree.modules.flatMap (fun (module, sub) =>
      sub.files.map (fun file => (module, ⟨file, (base.child module).child file⟩)))

/-- The modules of a tree that have modules below them, with what is said about each. -/
def OverlayTree.warnings (tree : OverlayTree) : List String :=
  (tree.modules.filter (fun (_, sub) => !sub.modules.isEmpty)).map (fun (module, _) =>
    "Modules more than one level deep not supported; sub-overlays for " ++ module ++ " skipped")

/-- The module of a resource: the provider's is the root, whatever its token says. -/
def Resource.module (r : Resource) : String := if r.isProvider then rootModule else r.token.module

def ResolvedProvider.placements (r : ResolvedProvider) : List Placement :=
  r.config.map (fun v => ⟨configModule, .variable v, v.rawName⟩) ++
    r.resources.map (fun r => ⟨r.module, .resource r, r.rawName⟩) ++
    r.dataSources.map (fun f => ⟨f.token.module, .dataSource f, f.rawName⟩)

/-- The package with a member more, or as it was with an error about the member. -/
def place (state : Package × List Diagnostic) (placement : Placement) : Package × List Diagnostic :=
  match state.1.addMember placement.module placement.member with
  | .ok package => (package, state.2)
  | .error e =>
    (state.1, state.2 ++ [Diagnostic.itemError "assemble" state.1.name placement.item e.message])

/-- The package with as many of the members as it takes, and errors about the others. -/
def placeAll (package : Package) (placements : List Placement) : Package × List Diagnostic :=
  placements.foldl place (package, [])

/-- What a document says about the package as a whole. -/
def Document.metadata (d : Document) : PackageMetadata where
  description := d.description
  keywords := d.keywords
  homepage := d.homepage
  repository := d.repository
  license := d.license

def Document.packaging (d : Document) : PackagingOptions where
  typeScriptDependencies := d.typeScript.dependencies
  typeScriptDevDependencies := d.typeScript.devDependencies
  typeScriptPeerDependencies := d.typeScript.peerDependencies
  pythonRequirements := d.python.requirements
  cSharpReferences := d.cSharp.packageReferences
  goImportBasePath := d.go.importBasePath

/-- The package of a document before members are added. -/
def Document.emptyPackage (d : Document) (name : String) (version : Version) : Package where
  name := name
  version := version.render
  metadata := d.metadata
  provenance := d.provenance
  packaging := d.packaging

/-- The package of a document with the resolved members, and with the hand-written files of a language. -/
def Document.assemble (d : Document) (name : String) (version : Version) (overlaysDirectory : Path)
    (language : Option Language) (resolved : ResolvedProvider) : Package × List Diagnostic :=
  let (package, errors) := placeAll (d.emptyPackage name version) resolved.placements
  match language with
  | none => (package, errors)
  | some language =>
    match d.overlayTree? language with
    | none => (package, errors)
    | some tree =>
      let files := tree.placedFiles (overlaysDirectory.child language.name)
      let (package, overlayErrors) :=
        placeAll package (files.map (fun (module, file) => ⟨module, .overlay file, file.name⟩))
      (package, errors ++ tree.warnings.map (Diagnostic.warning "assemble") ++ overlayErrors)

end ProviderSdk
