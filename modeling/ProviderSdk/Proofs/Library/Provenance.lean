import ProviderSdk.Library.Target
import ProviderSdk.Proofs.Compile.Completion

/-!
# Provenance

Where a schema came from is told in one file of a library. Two documents that differ in nothing else
give the same diagnostics, and libraries with the same files at the same places, of which only this
one may differ.
-/

namespace ProviderSdk

def versionPath : Path := ⟨"VERSION"⟩

/-- Two entries are the same, or both are the file that tells where the schema came from. -/
inductive PlanEntry.SameButVersion : PlanEntry → PlanEntry → Prop where
  | same (e : PlanEntry) : PlanEntry.SameButVersion e e
  | version (content content' : String) :
      PlanEntry.SameButVersion (.file ⟨versionPath, content⟩) (.file ⟨versionPath, content'⟩)

/-- Two files have the same path, and the same content unless they tell where the schema came from. -/
def PlannedFile.SameButVersion (f g : PlannedFile) : Prop :=
  g.path = f.path ∧ (f.path ≠ versionPath → g.content = f.content)

namespace Plan

/-- Two plans have the same copies, and files at the same paths of which only one may differ. -/
structure SameButVersion (p q : Plan) : Prop where
  files : List.Forall₂ PlannedFile.SameButVersion p.files q.files
  overlays : q.overlays = p.overlays

variable {p q : Plan} {e e' : PlanEntry}

theorem SameButVersion.refl (p : Plan) : p.SameButVersion p :=
  ⟨List.forall₂_same.mpr (fun _ _ => ⟨rfl, fun _ => rfl⟩), rfl⟩

theorem SameButVersion.paths (h : p.SameButVersion q) : q.files.map (·.path) = p.files.map (·.path) := by
  have hpaths : List.Forall₂ (· = ·) (q.files.map (·.path)) (p.files.map (·.path)) := by
    rw [List.forall₂_map_left_iff, List.forall₂_map_right_iff]
    exact h.files.flip.imp (fun _ _ hfile => hfile.1)
  rwa [List.forall₂_eq_eq_eq] at hpaths

theorem SameButVersion.file? (h : p.SameButVersion q) (path : Path) :
    (q.file? path).map (·.path) = (p.file? path).map (·.path) := by
  have hfile (p : Plan) : (p.file? path).map (·.path) =
      (p.files.map (·.path)).find? (fun other => other.same path) := by
    rw [List.find?_map]
    rfl
  rw [hfile, hfile, h.paths]

/-- Whether an addition succeeds depends on paths only, and so does what is said if it fails. -/
theorem SameButVersion.add (h : p.SameButVersion q) (he : e.SameButVersion e') :
    Corresponding SameButVersion (p.add e) (q.add e') := by
  have hoverlay (path : Path) : q.overlay? path = p.overlay? path := by rw [overlay?, overlay?, h.overlays]
  have hfile {f g : PlannedFile} (hfg : f.SameButVersion g) :
      Corresponding SameButVersion (p.addFile f) (q.addFile g) := by
    have hpaths := h.file? f.path
    rw [addFile, addFile, hfg.1, hoverlay]
    cases p.overlay? f.path with
    | some o => exact .fails
    | none =>
      cases hp : p.file? f.path with
      | some _ =>
        obtain ⟨_, hq⟩ : ∃ f', q.file? f.path = some f' := by
          cases hq : q.file? f.path with
          | some f' => exact ⟨f', rfl⟩
          | none => simp [hp, hq] at hpaths
        rw [hq]
        exact .fails
      | none =>
        have hq : q.file? f.path = none := by simpa [hp] using hpaths
        rw [hq]
        exact .succeeds ⟨List.rel_append h.files (.cons hfg .nil), h.overlays⟩
  cases he with
  | version content content' => exact hfile ⟨rfl, fun hne => absurd rfl hne⟩
  | same e =>
    cases e with
    | file f => exact hfile ⟨rfl, fun _ => rfl⟩
    | overlay o =>
      have hpaths := h.file? o.path
      rw [Plan.add, Plan.add, addOverlay, addOverlay, hoverlay]
      cases hp : p.file? o.path with
      | some f =>
        cases hq : q.file? o.path with
        | none => simp [hp, hq] at hpaths
        | some g =>
          have hsame : g.path = f.path := by simpa [hp, hq] using hpaths
          dsimp only
          rw [hsame]
          exact .fails
      | none =>
        have hq : q.file? o.path = none := by simpa [hp] using hpaths
        rw [hq]
        cases p.overlay? o.path with
        | some o' => exact .fails
        | none => exact .succeeds ⟨h.files, by rw [h.overlays]⟩

theorem SameButVersion.foldlM_add (h : p.SameButVersion q) {entries entries' : List PlanEntry}
    (hentries : List.Forall₂ PlanEntry.SameButVersion entries entries') :
    Corresponding SameButVersion (entries.foldlM Plan.add p) (entries'.foldlM Plan.add q) :=
  Corresponding.foldlM (fun _ _ _ _ hpq he => hpq.add he) hentries h

theorem SameButVersion.addOutside (h : p.SameButVersion q) {entries entries' : List PlanEntry}
    (hentries : List.Forall₂ PlanEntry.SameButVersion entries entries') :
    Corresponding SameButVersion (p.addOutside entries) (q.addOutside entries') :=
  ((h.foldlM_add hentries).mapError _).mapError _

theorem sameEntries (entries : List PlanEntry) : List.Forall₂ PlanEntry.SameButVersion entries entries :=
  List.forall₂_same.mpr (fun e _ => .same e)

theorem SameButVersion.addModules (h : p.SameButVersion q)
    (entries : Module → Except EmitCause (List PlanEntry)) (ms : List Module) :
    Corresponding SameButVersion (p.addModules entries ms) (q.addModules entries ms) := by
  refine Corresponding.foldlM (S := Eq) (fun p q m m' hpq hm => ?_) (List.forall₂_same.mpr (fun _ _ => rfl)) h
  obtain rfl := hm
  refine Corresponding.mapError ?_ _
  change Corresponding SameButVersion (entries m >>= p.addEntries) (entries m >>= q.addEntries)
  cases entries m with
  | error e => exact .fails
  | ok contents =>
    exact (hpq.foldlM_add (sameEntries contents)).mapError _

end Plan

def Package.withProvenance (p : Package) (provenance : Option Provenance) : Package :=
  { p with provenance := provenance }

variable (p : Package) (provenance : Option Provenance)

/-- Of the files that stand outside of all modules the descriptor does not tell the provenance. -/
theorem Library.commonEntries_same (language : Language) (more : List PlanEntry) :
    List.Forall₂ PlanEntry.SameButVersion (Library.commonEntries p language ++ more)
      (Library.commonEntries (p.withProvenance provenance) language ++ more) :=
  .cons (.same _) (.cons (.version _ _) (Plan.sameEntries more))

theorem TypeScriptLibrary.plan_same :
    Corresponding Plan.SameButVersion (TypeScriptLibrary.plan p)
      (TypeScriptLibrary.plan (p.withProvenance provenance)) := by
  have hindex (m : Module) : indexEntry (p.withProvenance provenance) m = indexEntry p m := rfl
  have hentries : moduleEntries (p.withProvenance provenance) = moduleEntries p := rfl
  have hroot : (p.withProvenance provenance).root? = p.root? := rfl
  have hmanifest : manifest (p.withProvenance provenance) = manifest p := rfl
  have hsources {plan plan' : Plan} (h : plan.SameButVersion plan') : sources plan' = sources plan := by
    rw [sources, sources, h.paths, h.overlays]
  refine Corresponding.bind ((Plan.SameButVersion.refl {}).addOutside
    (Library.commonEntries_same p provenance _ _))
    (fun start start' hstart => ?_)
  rw [hentries]
  refine Corresponding.bind (hstart.addModules _ _) (fun modules modules' hmodules => ?_)
  have hlast {indexed indexed' : Plan} (h : indexed.SameButVersion indexed') :
      Corresponding Plan.SameButVersion
        (do
          let listed ← indexed.addOutside [.fileAt "package.json" (manifest p)]
          listed.addOutside [.fileAt "tsconfig.json" (sourceList (sources listed))])
        (do
          let listed ← indexed'.addOutside [.fileAt "package.json" (manifest (p.withProvenance provenance))]
          listed.addOutside [.fileAt "tsconfig.json" (sourceList (sources listed))]) := by
    rw [hmanifest]
    refine Corresponding.bind (h.addOutside (Plan.sameEntries _)) (fun listed listed' hlisted => ?_)
    rw [hsources hlisted]
    exact hlisted.addOutside (Plan.sameEntries _)
  rw [hroot]
  split
  · exact hlast hmodules
  · rw [hindex]
    exact Corresponding.bind (hmodules.addOutside (Plan.sameEntries _)) (fun _ _ => hlast)

theorem PythonLibrary.plan_same :
    Corresponding Plan.SameButVersion (PythonLibrary.plan p)
      (PythonLibrary.plan (p.withProvenance provenance)) := by
  have hentries : moduleEntries (p.withProvenance provenance) = moduleEntries p := rfl
  refine Corresponding.bind ((Plan.SameButVersion.refl {}).addOutside
    (Library.commonEntries_same p provenance _ _))
    (fun start start' hstart => ?_)
  rw [hentries]
  refine Corresponding.bind (hstart.addModules _ _) (fun modules modules' hmodules => ?_)
  change Corresponding Plan.SameButVersion
    (if p.root?.isSome then .ok modules else modules.addOutside [indexEntry p (.empty rootModule)])
    (if p.root?.isSome then .ok modules' else modules'.addOutside [indexEntry p (.empty rootModule)])
  split
  · exact .succeeds hmodules
  · exact hmodules.addOutside (Plan.sameEntries _)

theorem CSharpLibrary.plan_same :
    Corresponding Plan.SameButVersion (CSharpLibrary.plan p)
      (CSharpLibrary.plan (p.withProvenance provenance)) := by
  have hentries : moduleEntries (p.withProvenance provenance) = moduleEntries p := rfl
  refine Corresponding.bind ((Plan.SameButVersion.refl {}).addOutside
    (Library.commonEntries_same p provenance _ _))
    (fun start start' hstart => ?_)
  rw [hentries]
  exact hstart.addModules _ _

theorem GoLibrary.plan_same :
    Corresponding Plan.SameButVersion (GoLibrary.plan p) (GoLibrary.plan (p.withProvenance provenance)) := by
  have hentries : moduleEntries (p.withProvenance provenance) = moduleEntries p := rfl
  refine Corresponding.bind ((Plan.SameButVersion.refl {}).addOutside
    (Library.commonEntries_same p provenance _ _))
    (fun start start' hstart => ?_)
  rw [hentries]
  exact hstart.addModules _ _

theorem Library.schemaPlan_same :
    Corresponding Plan.SameButVersion (Library.schemaPlan p)
      (Library.schemaPlan (p.withProvenance provenance)) :=
  (Plan.SameButVersion.refl {}).addOutside (Library.commonEntries_same p provenance _ _)

def Package.PlannedAlike (p q : Package) : Prop :=
  ∀ language, Corresponding Plan.SameButVersion (p.planFor language) (q.planFor language)

theorem Package.plannedAlike_withProvenance : p.PlannedAlike (p.withProvenance provenance) := by
  intro language
  cases language with
  | nodejs => exact TypeScriptLibrary.plan_same p provenance
  | python => exact PythonLibrary.plan_same p provenance
  | dotnet => exact CSharpLibrary.plan_same p provenance
  | go => exact GoLibrary.plan_same p provenance
  | schema => exact Library.schemaPlan_same p provenance

def Document.withProvenance (d : Document) (provenance : Option Provenance) : Document :=
  { d with provenance := provenance }

theorem Package.addMember_withProvenance (module : String) (member : Member) :
    (p.withProvenance provenance).addMember module member =
      (p.addMember module member).map (fun q => q.withProvenance provenance) := by
  simp only [Package.addMember, Package.withProvenance]
  cases Package.addToModules module member p.modules <;> rfl

/-- Whether a package takes its members does not depend on its provenance. -/
theorem placeAll_withProvenance (placements : List Placement) :
    placeAll (p.withProvenance provenance) placements =
      ((placeAll p placements).1.withProvenance provenance, (placeAll p placements).2) := by
  have hplace (p : Package) (errors : List Diagnostic) (placement : Placement) :
      place (p.withProvenance provenance, errors) placement =
        ((place (p, errors) placement).1.withProvenance provenance, (place (p, errors) placement).2) := by
    rw [place, place, Package.addMember_withProvenance]
    cases p.addMember placement.module placement.member <;> rfl
  have hfold (p : Package) (errors : List Diagnostic) :
      placements.foldl place (p.withProvenance provenance, errors) =
        ((placements.foldl place (p, errors)).1.withProvenance provenance,
          (placements.foldl place (p, errors)).2) := by
    induction placements generalizing p errors with
    | nil => rfl
    | cons placement rest ih =>
      rw [List.foldl_cons, List.foldl_cons, hplace]
      exact ih _ _
  exact hfold p []

theorem Document.assemble_withProvenance (d : Document) (name : String) (version : Version)
    (overlaysDirectory : Path) (language : Option Language) (resolved : ResolvedProvider) :
    (d.withProvenance provenance).assemble name version overlaysDirectory language resolved =
      ((d.assemble name version overlaysDirectory language resolved).1.withProvenance provenance,
        (d.assemble name version overlaysDirectory language resolved).2) := by
  have hplacements : (d.withProvenance provenance).overlayPlacements overlaysDirectory language =
      d.overlayPlacements overlaysDirectory language := by cases language with
    | none => rfl
    | some language => cases language <;> rfl
  have hwarnings : (d.withProvenance provenance).overlayWarnings language = d.overlayWarnings language := by
    cases language with
    | none => rfl
    | some language => cases language <;> rfl
  have hempty : (d.withProvenance provenance).emptyPackage name version =
      (d.emptyPackage name version).withProvenance provenance := rfl
  rw [Document.assemble_eq, Document.assemble_eq, hplacements, hwarnings, hempty]
  simp only [placeAll_withProvenance]

namespace Compilation

/-- Two runs have the same diagnostics, and from both no package can be taken for the same reason,
or packages whose libraries are planned alike. -/
structure AlikeButVersion (c c' : Compilation) : Prop where
  diagnostics : c'.diagnostics = c.diagnostics
  package : Corresponding Package.PlannedAlike c.takePackage c'.takePackage

theorem finished_alikeButVersion (disk : Disk) (document : Document) (provenance : Option Provenance)
    (options : RunOptions) :
    (finished disk document options).AlikeButVersion (finished disk
      (document.withProvenance provenance) options) := by
  have hassembled : assembled disk (document.withProvenance provenance) options =
      ((assembled disk document options).1.withProvenance provenance, (assembled disk document options).2) :=
    document.assemble_withProvenance provenance _ _ _ _ _
  have hpackage : (finished disk (document.withProvenance provenance) options).package =
      some ((assembled disk document options).1.withProvenance provenance) := by
    rw [finished, hassembled]
  have hdiagnostics : (finished disk (document.withProvenance provenance) options).diagnostics =
      (finished disk document options).diagnostics := by
    rw [finished, hassembled]
    rfl
  have herrors : (finished disk (document.withProvenance provenance) options).errors =
      (finished disk document options).errors := congrArg (List.filter Diagnostic.isError) hdiagnostics
  refine ⟨hdiagnostics, ?_⟩
  by_cases hnone : (finished disk document options).errors = []
  · rw [takePackage_of_no_errors hnone rfl, takePackage_of_no_errors (herrors.trans hnone) hpackage]
    exact .succeeds (Package.plannedAlike_withProvenance _ provenance)
  · rw [takePackage_of_errors hnone, takePackage_of_errors (herrors ▸ hnone), herrors]
    exact .fails

/-- What tells where the schema came from shows in one file of a library only: two documents that
differ in nothing else give the same diagnostics, the same failures, and plans of all targets with
the same paths, the same copies, and the same content of every other file. -/
theorem provenance_shows_in_version (disk : Disk) (document : Document) (provenance : Option Provenance)
    (options : RunOptions) : Corresponding AlikeButVersion (run disk document options)
      (run disk (document.withProvenance provenance) options) := by
  by_cases hname : (start document options).packageName = ""
  · have hname' : (start (document.withProvenance provenance) options).packageName = "" := hname
    rw [run, run, if_pos hname, if_pos hname']
    exact .fails
  · have hname' : (start (document.withProvenance provenance) options).packageName ≠ "" := hname
    rw [run_eq_finished disk document options hname, run_eq_finished disk _ options hname']
    exact .succeeds (finished_alikeButVersion disk document provenance options)

end Compilation

end ProviderSdk
