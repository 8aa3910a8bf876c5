import Mathlib.Data.List.Perm.Basic
import ProviderSdk.Package.Tree
import ProviderSdk.Proofs.Compile.Fate
import ProviderSdk.Proofs.Library.Names
import ProviderSdk.Proofs.Plan.Additions
import ProviderSdk.Text.Sorted

/-!
# Indexes of modules

Languages in which every module has an index file: it exports the other files of the module by their
stems, which are collected apart from the files. That they are the stems of files in the plan, each
once, comes from the paths of a plan: these are distinct, so that neither two files of a module can
have one stem, nor can a file have that of the index.
-/

namespace ProviderSdk

namespace Text

end Text

/-- Configuration variables stand in the module for them only. -/
def Package.VariablesInConfig (p : Package) : Prop :=
  ∀ module v, (module, Member.variable v) ∈ p.placed → module = configModule

theorem Package.VariablesInConfig.addMember {p p' : Package} {module : String} {member : Member}
    (hp : p.VariablesInConfig) (hmember : ∀ v, member = .variable v → module = configModule)
    (h : p.addMember module member = .ok p') : p'.VariablesInConfig := by
  intro other v hv
  rcases List.mem_append.mp ((placed_addMember h).mem_iff.mp hv) with hold | hnew
  · exact hp other v hold
  · obtain ⟨rfl, rfl⟩ := Prod.mk.inj (List.mem_singleton.mp hnew)
    exact hmember v rfl

/-- Only the configuration of a document becomes variables, and these go to their own module. -/
theorem Document.variablesInConfig_assemble (d : Document) (name : String) (version : Version)
    (overlaysDirectory : Path) (language : Option Language) (resolved : ResolvedProvider) :
    (d.assemble name version overlaysDirectory language resolved).1.VariablesInConfig := by
  have hplace {package : Package} {placements : List Placement}
      (hplacements : ∀ placement ∈ placements,
        ∀ v, placement.member = .variable v → placement.module = configModule)
      (h : package.VariablesInConfig) : (placeAll package placements).1.VariablesInConfig :=
    placeAll_preserves (fun placement hmem _ _ hadd hpackage =>
      Package.VariablesInConfig.addMember hpackage (hplacements placement hmem) hadd) h
  rw [Document.assemble_eq]
  refine hplace (fun placement hplacement v hv => ?_) (hplace (fun placement hplacement v hv => ?_) ?_)
  · obtain ⟨file, hfile⟩ := Document.exists_overlay_of_mem_overlayPlacements hplacement
    cases hfile.symm.trans hv
  · obtain ⟨_, -, rfl⟩ | ⟨_, -, rfl⟩ | ⟨_, -, rfl⟩ := ResolvedProvider.cases_of_mem_placements hplacement
    · rfl
    · cases hv
    · cases hv
  · intro module v hv
    cases hv

/-- Where a language puts the files of modules, and how it names them. -/
structure Layout where
  directory : String → Path
  stem : String → String
  ending : String
  index : String

namespace Layout

variable (l : Layout) {p : Package} {m : Module} {plan : Plan}

def file (module stem : String) : Path := (l.directory module).join ⟨stem ++ l.ending⟩

def stem? : Member → Option String
  | .resource r => some (l.stem r.fileStem)
  | .dataSource f => some (l.stem f.fileStem)
  | .overlay o => Text.dropEnd? l.ending o.name
  | .variable _ => none

def variableStems (m : Module) : List String := if m.configVariables.isEmpty then [] else ["vars"]

/-- The stems of all files of a module but its index: that of its variables, those of its resources,
of its data sources, and of its hand-written files with the ending of the language. -/
def stems (m : Module) : List String :=
  variableStems m ++ m.resources.map (fun r => l.stem r.fileStem) ++
    m.dataSources.map (fun f => l.stem f.fileStem) ++
    m.overlays.filterMap (fun o => Text.dropEnd? l.ending o.name)

def paths (m : Module) : List Path :=
  (variableStems m).map (l.file configModule) ++
    m.members.flatMap (Member.pathsIn (l.directory m.name) (fun r => l.stem r.fileStem ++ l.ending)
      (fun f => l.stem f.fileStem ++ l.ending)) ++
    [l.file m.name l.index]

variable {l}

end Layout

namespace Plan

variable {plan : Plan} {entries all : List PlanEntry}

end Plan

namespace Layout

variable {l : Layout} {p : Package} {plan : Plan} {exports : Module → List String}
  {indexText : Module → List String → String}

structure Contributes (l : Layout) (p : Package) (indexText : Module → List String → String) (m : Module)
    (entries : List PlanEntry) : Prop where
  paths : entries.map PlanEntry.path = l.paths m
  index : .file ⟨l.file m.name l.index, indexText m (if m.isRoot then p.submodules.map (·.name) else [])⟩ ∈
    entries

end Layout

end ProviderSdk
