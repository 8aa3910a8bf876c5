import ProviderSdk.Proofs.Code.Lines
import ProviderSdk.Proofs.Compile.Targets
import ProviderSdk.Proofs.Library.Indexes
import ProviderSdk.PythonLibrary.Plan
import ProviderSdk.TypeScriptLibrary.Plan

/-!
# Manifests

What a TypeScript or Python library says about its own files: the indexes of its modules, which
export them, and the list of sources for the TypeScript compiler. All of it matches the plan of the
library.
-/

namespace ProviderSdk

namespace Plan

variable {p q : Plan} {entries : List PlanEntry}

theorem entries_addOutside (h : p.addOutside entries = .ok q) :
    q.entries.Perm (p.entries ++ entries) ∧ (p.Distinct → q.Distinct) :=
  foldlM_add_eq_ok (addOutside_eq_ok.mp h)

theorem entries_addModules {contents : Module → List PlanEntry} {ms : List Module}
    (h : p.addModules (fun m => .ok (contents m)) ms = .ok q) :
    q.entries.Perm (p.entries ++ ms.flatMap contents) ∧ (p.Distinct → q.Distinct) := by
  obtain ⟨added, hcontents, hadded⟩ := addModules_eq_ok h
  have heq : added = ms.map contents := by
    have hsame : List.Forall₂ (· = ·) (ms.map contents) added := by
      rw [List.forall₂_map_left_iff]
      exact hcontents.imp (fun _ _ hok => Except.ok.inj hok)
    rw [List.forall₂_eq_eq_eq] at hsame
    exact hsame.symm
  rw [List.flatMap_def, ← heq]
  exact foldlM_add_eq_ok hadded

end Plan

def Package.rootEntries (p : Package) (indexEntry : Module → PlanEntry) : List PlanEntry :=
  if p.root?.isSome then [] else [indexEntry (.empty rootModule)]

theorem Plan.addOutside_rootEntries (p : Package) (plan : Plan) (indexEntry : Module → PlanEntry) :
    plan.addOutside (p.rootEntries indexEntry) =
      if p.root?.isSome then .ok plan else plan.addOutside [indexEntry (.empty rootModule)] := by
  rw [Package.rootEntries]
  split <;> rfl

namespace TypeScriptLibrary

variable {p : Package} {m : Module} {plan : Plan}

def importLine (name : String) : String := "import * as " ++ name ++ " from \"./" ++ name ++ "\";"

def indexText (m : Module) (submodules : List String) : String := (indexFile m submodules).content

def importLines (names : List String) : List String := "// Export sub-modules:" :: names.map importLine

def outsideEntries (p : Package) : List PlanEntry :=
  Library.commonEntries p .nodejs ++ [.fileAt "utilities.ts" (utilities p.version)]

/-- What a planned library consists of: what stands outside of modules, what each module
contributes, the index of a root that is no module, and the two manifests, the second with the
sources of the plan before it. -/
theorem entries_plan (h : TypeScriptLibrary.plan p = .ok plan) : ∃ listed, plan.Distinct ∧
    listed.entries.Perm (outsideEntries p ++
      (p.modules.flatMap (moduleEntries p) ++ (p.rootEntries (indexEntry p) ++
      [.fileAt "package.json" (manifest p)]))) ∧
    plan.entries.Perm (listed.entries ++ [.fileAt "tsconfig.json" (sourceList (sources listed))]) := by
  obtain ⟨start, hstart, h⟩ := bind_eq_ok.mp h
  obtain ⟨modules, hmodules, h⟩ := bind_eq_ok.mp h
  obtain ⟨indexed, hindexed, h⟩ : ∃ indexed, modules.addOutside (p.rootEntries (indexEntry p)) = .ok indexed ∧
      (do
        let listed ← indexed.addOutside [.fileAt "package.json" (manifest p)]
        listed.addOutside [.fileAt "tsconfig.json" (sourceList (sources listed))]) = .ok plan := by
    rw [Plan.addOutside_rootEntries]
    dsimp only at h
    split at h
    · next hroot => exact ⟨modules, if_pos hroot, h⟩
    · next hroot =>
      rw [if_neg hroot]
      exact bind_eq_ok.mp h
  obtain ⟨listed, hlisted, h⟩ := bind_eq_ok.mp h
  obtain ⟨hpermStart, hdistinctStart⟩ := Plan.entries_addOutside hstart
  have hempty : ({} : Plan).entries = [] := rfl
  rw [hempty, List.nil_append] at hpermStart
  have hpermOutside : start.entries.Perm (outsideEntries p) := hpermStart
  obtain ⟨hpermModules, hdistinctModules⟩ := Plan.entries_addModules hmodules
  obtain ⟨hpermIndexed, hdistinctIndexed⟩ := Plan.entries_addOutside hindexed
  obtain ⟨hpermListed, hdistinctListed⟩ := Plan.entries_addOutside hlisted
  obtain ⟨hperm, hdistinct⟩ := Plan.entries_addOutside h
  refine ⟨listed,
    hdistinct (hdistinctListed (hdistinctIndexed (hdistinctModules (hdistinctStart .nil)))), ?_, hperm⟩
  have hall := hpermListed.trans ((hpermIndexed.trans
    ((hpermModules.trans (hpermOutside.append_right _)).append_right _)).append_right _)
  simpa only [List.append_assoc] using hall

end TypeScriptLibrary

namespace PythonLibrary

variable {p : Package} {m : Module} {plan : Plan}

def importLine (stem : String) : String := "from ." ++ stem ++ " import *"

end PythonLibrary

namespace Compilation

/-- A document with a configuration variable, to which the resource of the provider itself belongs,
a resource and a data source in one module, a resource in the root module, and hand-written files in
both. -/
def shelfDocument : Document where
  name := "acme"
  provider := {
    config := [("region", .scalar .string { optional := true })]
    resources := [("acme_host", [("size", .scalar .int { optional := true })]),
      ("acme_port", [("size", .scalar .int { optional := true })])]
    dataSources := [("acme_port", [("size", .scalar .int { computed := true })])] }
  resources := [("acme_host", { token := "acme:index:Host" }), ("acme_port", { token := "acme:net:Port" })]
  dataSources := [("acme_port", { token := "acme:net:getPort" })]
  typeScript := { overlay := some { files := ["hand.ts", "notes.md"], modules :=
    [("net", { files := ["port.mixins.ts"] })] } }

end Compilation

end ProviderSdk
