import ProviderSdk.Operation.Check
import ProviderSdk.Operation.Generation
import ProviderSdk.Proofs.Compile.Completion
import ProviderSdk.Proofs.Package.Overlays

/-!
# Runs for targets

A run for a target language is the run for none and then some: pairing and resolving do not know the
target, and assembling adds the hand-written files of the language behind everything else. So
nothing that a check finds is lost when a library is generated, and a library can only be generated
if a check finds no errors.
-/

namespace ProviderSdk

/-- The options with another target, or with none. -/
def RunOptions.forTarget (options : RunOptions) (language : Option Language) : RunOptions :=
  { options with language := language }

/-- Placing hand-written files, whether they are taken or not, leaves the rest of a package as it is. -/
theorem placeAll_withoutOverlays {placements : List Placement}
    (h : ∀ placement ∈ placements, placement.member.isOverlay = true) (package : Package) :
    (placeAll package placements).1.withoutOverlays = package.withoutOverlays :=
  @placeAll_preserves (fun p => p.withoutOverlays = package.withoutOverlays) placements
    (fun placement hplacement _ _ hadd hp =>
      (Package.withoutOverlays_addMember (h placement hplacement) hadd).trans hp) package rfl

theorem placeAll_allGenerated {placements : List Placement}
    (h : ∀ placement ∈ placements, placement.member.isOverlay = false) {package : Package}
    (hpackage : AllGenerated package.modules) : AllGenerated (placeAll package placements).1.modules :=
  @placeAll_preserves (fun p => AllGenerated p.modules) placements
    (fun placement hplacement _ _ hadd hp => AllGenerated.addMember hp (h placement hplacement) hadd)
    package hpackage

theorem isOverlay_placements (r : ResolvedProvider) :
    ∀ placement ∈ r.placements, placement.member.isOverlay = false := by
  intro placement hplacement
  obtain ⟨v, -, rfl⟩ | ⟨r, -, rfl⟩ | ⟨f, -, rfl⟩ :=
    ResolvedProvider.cases_of_mem_placements hplacement <;> rfl

theorem isOverlay_overlayPlacements (d : Document) (overlaysDirectory : Path) (language : Option Language) :
    ∀ placement ∈ d.overlayPlacements overlaysDirectory language, placement.member.isOverlay = true := by
  intro placement hplacement
  obtain ⟨file, hfile⟩ := Document.exists_overlay_of_mem_overlayPlacements hplacement
  rw [hfile]
  rfl

variable (d : Document) (name : String) (version : Version) (overlaysDirectory : Path)
  (language : Option Language)
  (resolved : ResolvedProvider)

/-- Without a target the resolved members are all that is placed. -/
theorem Document.assemble_none : d.assemble name version overlaysDirectory none resolved =
    placeAll (d.emptyPackage name version) resolved.placements := rfl

/-- What is assembled for a target is, without its hand-written files, what is assembled for none. -/
theorem Document.assemble_withoutOverlays :
    (d.assemble name version overlaysDirectory language resolved).1.withoutOverlays =
      (d.assemble name version overlaysDirectory none resolved).1 := by
  rw [Document.assemble_eq, Document.assemble_none]
  have hgenerated : AllGenerated (placeAll (d.emptyPackage name version) resolved.placements).1.modules :=
    placeAll_allGenerated (isOverlay_placements resolved) (by simp [AllGenerated, Document.emptyPackage])
  calc (placeAll (placeAll (d.emptyPackage name version) resolved.placements).1
        (d.overlayPlacements overlaysDirectory language)).1.withoutOverlays
      = (placeAll (d.emptyPackage name version) resolved.placements).1.withoutOverlays :=
        placeAll_withoutOverlays (isOverlay_overlayPlacements d overlaysDirectory language) _
    _ = (placeAll (d.emptyPackage name version) resolved.placements).1 := by
        rw [Package.withoutOverlays, hgenerated.modulesWithoutOverlays_eq]

/-- The diagnostics about hand-written files come last. -/
theorem Document.assemble_prefix :
    (d.assemble name version overlaysDirectory none resolved).2 <+:
      (d.assemble name version overlaysDirectory language resolved).2 := by
  rw [Document.assemble_none, Document.assemble_eq]
  dsimp only
  rw [List.append_assoc]
  exact List.prefix_append _ _

namespace Compilation

/-- A run has all that the bare run for no target has: the same results of pairing and resolving,
the same diagnostics and perhaps more behind them, and the same package once its hand-written files
are taken out. -/
structure Extends (c bare : Compilation) : Prop where
  paired : c.paired = bare.paired
  resolved : c.resolved = bare.resolved
  diagnostics : bare.diagnostics <+: c.diagnostics
  package : c.package.map Package.withoutOverlays = bare.package
  complete : bare.package.isSome

/-- Both runs stop for the same reason, or the one extends the other. -/
abbrev RunExtends : (result bare : Except CompileError Compilation) → Prop := Corresponding Extends

theorem Extends.errors_eq_nil {c bare : Compilation} (h : c.Extends bare) (herrors : c.errors = []) :
    bare.errors = [] := by
  have hprefix : bare.errors <+: c.errors := h.diagnostics.filter _
  rw [herrors] at hprefix
  exact List.prefix_nil.mp hprefix

theorem errors_of_takePackage {c : Compilation} {package : Package} (h : c.takePackage = .ok package) :
    c.errors = [] := by
  unfold takePackage at h
  split at h
  · next hempty => exact List.isEmpty_iff.mp hempty
  · cases h

theorem errors_checkReport (c : Compilation) : c.checkReport.errors = c.errors.map (fun d => d.message) := by
  cases h : c.package <;> simp [checkReport, h]

variable (disk : Disk) (document : Document) (options : RunOptions)

theorem finished_extends (language : Option Language) :
    (finished disk document (options.forTarget language)).Extends
      (finished disk document (options.forTarget none)) where
  paired := rfl
  resolved := rfl
  diagnostics := by
    have hassembled := document.assemble_prefix (start document options).packageName options.version
      options.overlaysDirectory language (resolution disk document options).resolved
    exact (List.prefix_append_right_inj _).mpr hassembled
  package := congrArg some (document.assemble_withoutOverlays
    (start document options).packageName options.version
    options.overlaysDirectory language (resolution disk document options).resolved)
  complete := rfl

theorem run_extends (language : Option Language) : RunExtends (run disk document (options.forTarget language))
    (run disk document (options.forTarget none)) := by
  by_cases hname : (start document options).packageName = ""
  · have hstops (language : Option Language) :
        run disk document (options.forTarget language) = .error .packageNameMissing := if_pos hname
    rw [hstops, hstops]
    exact .fails
  · have hends (language : Option Language) :
        run disk document (options.forTarget language) =
          .ok (finished disk document (options.forTarget language)) :=
      run_eq_finished disk document (options.forTarget language) hname
    rw [hends, hends]
    exact .succeeds (finished_extends disk document options language)

/-- A check finds no errors if a package can be prepared for some target. -/
theorem check_of_prepare {settings : Settings} {language : Language} {prepared : Prepared}
    (h : document.prepare disk settings language = .ok prepared) :
    ∃ report, document.check disk settings = .ok report ∧ report.errors = [] := by
  obtain ⟨c, hrun, htake⟩ := bind_eq_ok.mp h
  obtain ⟨package, htake, _⟩ := bind_eq_ok.mp htake
  rw [mapError_eq_ok] at hrun htake
  have hruns : RunExtends (run disk document (settings.runOptions (some language)))
      (run disk document (settings.runOptions none)) := run_extends disk document (settings.runOptions none) _
  rw [hrun] at hruns
  generalize hbare : run disk document (settings.runOptions none) = result at hruns
  cases hruns with | @succeeds _ bare hextends =>
  refine ⟨bare.checkReport, by rw [Document.check, hbare]; rfl, ?_⟩
  rw [errors_checkReport, hextends.errors_eq_nil (errors_of_takePackage htake)]
  rfl

theorem exists_prepared {settings : Settings} {language : Language}
    (hname : (start document (settings.runOptions (some language))).packageName ≠ "")
    (herrors : (finished disk document (settings.runOptions (some language))).errors = []) :
    ∃ warnings, document.prepare disk settings language =
      .ok ⟨(assembled disk document (settings.runOptions (some language))).1, warnings⟩ := by
  rw [Document.prepare, run_eq_finished disk document _ hname]
  change ∃ warnings, (((finished disk document (settings.runOptions (some language))).takePackage.mapError
    (OperationFailure.unresolved language)) >>= _) = Except.ok _
  rw [takePackage_of_no_errors herrors rfl]
  exact ⟨_, rfl⟩

/-- A target adds nothing to a run but hand-written files. So if a package can be prepared for some
target, a check finds no errors. -/
theorem target_adds_overlays :
    (∀ language, RunExtends (run disk document (options.forTarget language))
        (run disk document (options.forTarget none))) ∧
      ∀ (settings : Settings) (language : Language),
        (∃ prepared, document.prepare disk settings language = .ok prepared) →
          ∃ report, document.check disk settings = .ok report ∧ report.errors = [] := by
  refine ⟨run_extends disk document options, ?_⟩
  rintro settings language ⟨prepared, hprepared⟩
  exact check_of_prepare disk document hprepared

/-- A document with a resource and with hand-written files in three modules, one of them that of the
resource. -/
def handDocument : Document where
  name := "acme"
  provider := { resources := [("acme_host", [("size", .scalar .int { optional := true })])] }
  resources := [("acme_host", { token := "acme:net:Host" })]
  typeScript := { overlay := some {
    files := ["hand.ts"]
    modules := [("aux", { files := ["more.ts"] }), ("net", { files := ["host.mixins.ts"] })] } }

def plainSettings : Settings :=
  { (default : Settings) with version := Version.initial, overlaysDirectory := "overlays" }

def plainPackage (document : Document) (language : Language) : Package :=
  (assembled default document (plainSettings.runOptions (some language))).1

def memberNames (p : Package) : List (String × List String) :=
  p.modules.map (fun m => (m.name, m.members.map Member.name))

/-- The target adds a file to the module of the resource and two modules more; a check does not see them. -/
theorem handDocument_extended :
    (∃ c bare, run default handDocument (({} : RunOptions).forTarget (some .nodejs)) = .ok c ∧
        run default handDocument {} = .ok bare ∧ c.Extends bare ∧
        c.package.map memberNames =
          some [("aux", ["more.ts"]), ("index", ["hand.ts"]), ("net", ["Host", "host.mixins.ts"])] ∧
        bare.package.map memberNames = some [("net", ["Host"])]) ∧
      ∃ report, handDocument.check default plainSettings = .ok report ∧ report.errors = [] := by
  obtain ⟨hextends, hcheck⟩ := target_adds_overlays default handDocument {}
  constructor
  · have hruns := hextends (some .nodejs)
    have hname : (start handDocument {}).packageName ≠ "" := by decide
    have hends (language : Option Language) :
        run default handDocument (({} : RunOptions).forTarget language) =
        .ok (finished default handDocument (({} : RunOptions).forTarget language)) :=
      run_eq_finished default handDocument _ hname
    rw [hends, hends] at hruns
    cases hruns with | succeeds h =>
    exact ⟨_, _, hends _, hends none, h, by decide +kernel, by decide +kernel⟩
  · obtain ⟨warnings, hprepared⟩ := exists_prepared default handDocument
      (show (start handDocument (plainSettings.runOptions (some .nodejs))).packageName ≠ "" by decide)
        (by decide +kernel)
    exact hcheck plainSettings .nodejs ⟨_, hprepared⟩

end Compilation

end ProviderSdk
