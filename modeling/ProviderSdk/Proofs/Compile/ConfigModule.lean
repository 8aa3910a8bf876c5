import ProviderSdk.Proofs.Compile.Projection
import ProviderSdk.Proofs.Compile.Targets
import ProviderSdk.Proofs.Library.Indexes
import ProviderSdk.Proofs.Package.Contents

/-!
# The module of configuration variables

Configuration variables stand in a module of their own, but nothing keeps that module for them: a
resource or data source whose token names it is put there too, behind the variables and before the
hand-written files. Only if no token does so has the module the variables and hand-written files and
nothing else.
-/

namespace ProviderSdk

/-- The module of configuration variables has these, in their order, and behind them nothing but
hand-written files. -/
def Package.ConfigReserved (p : Package) (vs : List Property) : Prop :=
  ∃ files : List OverlayFile, p.membersIn configModule = vs.map .variable ++ files.map .overlay

/-- The hand-written files that a package is to have in a module for a language. -/
def Document.filesFor (d : Document) (overlaysDirectory : Path) (language : Option Language)
    (module : String) :
    List OverlayFile :=
  match language with
  | none => []
  | some language =>
    match d.overlayTree? language with
    | none => []
    | some tree => ((tree.placedFiles (overlaysDirectory.child language.name)).filter
      (fun f => f.1 == module)).map Prod.snd

variable (d : Document) (name : String) (version : Version) (overlaysDirectory : Path)
  (language : Option Language)
  (resolved : ResolvedProvider)

theorem membersFor_overlayPlacements (module : String) :
    membersFor module (d.overlayPlacements overlaysDirectory language) =
      (d.filesFor overlaysDirectory language module).map .overlay := by
  cases language with
  | none => rfl
  | some language =>
    cases h : d.overlayTree? language with
    | none => simp [Document.overlayPlacements, Document.filesFor, h, membersFor]
    | some tree =>
      simp [Document.overlayPlacements, Document.filesFor, h, membersFor, List.filter_map, Function.comp_def]

theorem membersFor_config_placements : membersFor configModule resolved.placements =
    resolved.config.map .variable ++
      (resolved.resources.filter (fun r => r.module == configModule)).map .resource ++
        (resolved.dataSources.filter (fun f => f.token.module == configModule)).map .dataSource := by
  have hvariables : membersFor configModule (resolved.config.map
      (fun v => ⟨configModule, .variable v, v.rawName⟩)) =
      resolved.config.map .variable := by
    simp [membersFor, List.filter_map, Function.comp_def]
  rw [ResolvedProvider.placements, membersFor_append, membersFor_append, hvariables]
  simp [membersFor, List.filter_map, Function.comp_def]

theorem isError_placeAll (package : Package) (placements : List Placement) :
    ∀ x ∈ (placeAll package placements).2, x.isError = true := by
  obtain ⟨fates, hfates, -, herrors, -⟩ := exists_fates_placeAll package placements
  rw [herrors]
  exact fun x hx => (errors_placements hfates x hx).1

/-- If no errors are recorded while a package is assembled, all resolved members and all
hand-written files stand in their modules, the latter behind the former. -/
theorem Document.membersIn_assemble
    (hnone : ∀ x ∈ (d.assemble name version overlaysDirectory language resolved).2, x.isError = false)
    (module : String) :
    (d.assemble name version overlaysDirectory language resolved).1.membersIn module =
      membersFor module resolved.placements ++
        (d.filesFor overlaysDirectory language module).map .overlay := by
  rw [Document.assemble_eq] at hnone ⊢
  have hmade : (placeAll (d.emptyPackage name version) resolved.placements).2 = [] := by
    refine List.eq_nil_iff_forall_not_mem.mpr (fun x hx => ?_)
    have hnot := hnone x (List.mem_append_left _ (List.mem_append_left _ hx))
    simp [isError_placeAll _ _ x hx] at hnot
  have hfiles : (placeAll (placeAll (d.emptyPackage name version) resolved.placements).1
      (d.overlayPlacements overlaysDirectory language)).2 = [] := by
    refine List.eq_nil_iff_forall_not_mem.mpr (fun x hx => ?_)
    have hnot := hnone x (List.mem_append_right _ hx)
    simp [isError_placeAll _ _ x hx] at hnot
  have hascend : (placeAll (d.emptyPackage name version) resolved.placements).1.ModulesAscend :=
    d.modulesAscend_assemble name version overlaysDirectory none resolved
  have hempty : (d.emptyPackage name version).ModulesAscend := .nil
  rw [membersIn_placeAll hascend hfiles, membersIn_placeAll hempty hmade, membersFor_overlayPlacements]
  rfl

/-- The members that come behind the variables are all hand-written files exactly if no resource or
data source is among them. -/
theorem configReserved_iff {p : Package} {resources : List Resource} {dataSources : List DataSource}
    {files : List OverlayFile} {vs : List Property}
    (h : p.membersIn configModule = vs.map .variable ++ resources.map .resource ++
      dataSources.map .dataSource ++
      files.map .overlay) :
    p.ConfigReserved vs ↔ resources = [] ∧ dataSources = [] := by
  constructor
  · rintro ⟨files', hfiles⟩
    rw [h, List.append_assoc, List.append_assoc, List.append_cancel_left_eq] at hfiles
    have hoverlay {member : Member} (hmember : member ∈ resources.map .resource ++
        (dataSources.map .dataSource ++ files.map .overlay)) : ∃ o, member = .overlay o := by
      rw [hfiles] at hmember
      obtain ⟨o, -, rfl⟩ := List.mem_map.mp hmember
      exact ⟨o, rfl⟩
    constructor
    · refine List.eq_nil_iff_forall_not_mem.mpr (fun r hr => ?_)
      obtain ⟨o, ho⟩ := hoverlay (List.mem_append_left _ (List.mem_map_of_mem hr))
      cases ho
    · refine List.eq_nil_iff_forall_not_mem.mpr (fun f hf => ?_)
      obtain ⟨o, ho⟩ := hoverlay (List.mem_append_right _ (List.mem_append_left _ (List.mem_map_of_mem hf)))
      cases ho
  · rintro ⟨rfl, rfl⟩
    exact ⟨files, by simpa using h⟩

theorem Document.membersIn_config_assemble
    (hnone : ∀ x ∈ (d.assemble name version overlaysDirectory language resolved).2, x.isError = false) :
    (d.assemble name version overlaysDirectory language resolved).1.membersIn configModule =
      resolved.config.map .variable ++
        (resolved.resources.filter (fun r => r.module == configModule)).map .resource ++
        (resolved.dataSources.filter (fun f => f.token.module == configModule)).map .dataSource ++
        (d.filesFor overlaysDirectory language configModule).map .overlay := by
  rw [d.membersIn_assemble _ _ _ _ _ hnone, membersFor_config_placements]

theorem Document.configReserved_assemble_iff
    (hnone : ∀ x ∈ (d.assemble name version overlaysDirectory language resolved).2, x.isError = false) :
    (d.assemble name version overlaysDirectory language resolved).1.ConfigReserved resolved.config ↔
      (∀ r ∈ resolved.resources, r.module ≠ configModule) ∧
        ∀ f ∈ resolved.dataSources, f.token.module ≠ configModule := by
  refine (configReserved_iff (d.membersIn_config_assemble _ _ _ _ _ hnone)).trans ?_
  simp [List.filter_eq_nil_iff]

namespace Compilation

variable (disk : Disk) (document : Document) (options : RunOptions)

theorem isError_assembled_of_phase {c : Compilation} (hrun : run disk document options = .ok c)
    (hnone : ∀ x ∈ c.diagnostics, x.phase = "assemble" → x.isError = false) :
    ∀ x ∈ (assembled disk document options).2, x.isError = false := by
  cases eq_finished_of_run disk document options hrun
  obtain ⟨-, -, -, -, -, -, hphase⟩ :=
    document.exists_fates_assemble (start document options).packageName options.version
    options.overlaysDirectory options.language (resolution disk document options).resolved
  exact fun x hx => hnone x (List.mem_append_right _ hx) (hphase x hx)

/-- If assembling records no error, the module of configuration variables has the resolved
variables, then the resources and the data sources whose tokens name it, then the hand-written files
for it. So it is kept for the variables exactly if no resolved resource or data source is put into
it. The variables stand in no other module, and in the order of their keys if those of the document
do. -/
theorem run_fills_config {c : Compilation} {p : Package} {resolved : ResolvedProvider}
    (hrun : run disk document options = .ok c) (hp : c.package = some p)
    (hresolved : c.resolved = some resolved)
    (hnone : ∀ x ∈ c.diagnostics, x.phase = "assemble" → x.isError = false) :
    p.membersIn configModule = resolved.config.map .variable ++
        (resolved.resources.filter (fun r => r.module == configModule)).map .resource ++
        (resolved.dataSources.filter (fun f => f.token.module == configModule)).map .dataSource ++
        (document.filesFor options.overlaysDirectory options.language configModule).map .overlay ∧
      (p.ConfigReserved resolved.config ↔ (∀ r ∈ resolved.resources, r.module ≠ configModule) ∧
        ∀ f ∈ resolved.dataSources, f.token.module ≠ configModule) ∧
      p.VariablesInConfig ∧
      (document.provider.Ordered → resolved.config.Pairwise (fun v w => v.rawName < w.rawName)) := by
  have herrors := isError_assembled_of_phase disk document options hrun hnone
  cases eq_finished_of_run disk document options hrun
  cases hp
  cases hresolved
  refine ⟨document.membersIn_config_assemble _ _ _ _ _ herrors,
    document.configReserved_assemble_iff _ _ _ _ _ herrors, document.variablesInConfig_assemble _ _ _ _ _,
    fun hordered => ?_⟩
  obtain hnone | hall :=
    (resolve_projectedFrom hordered ((start document options).resolveContext disk)).config
  · rw [resolution, hnone]
    exact .nil
  · exact hall.sorted

/-- A document with a configuration variable, a resource in the root module, and a hand-written file
for the module of the variable. -/
def regionDocument : Document where
  name := "acme"
  provider := {
    config := [("region", .scalar .string { optional := true })]
    resources := [("acme_host", [("size", .scalar .int { optional := true })])] }
  resources := [("acme_host", { token := "acme:index:Host" })]
  typeScript := { overlay := some { modules := [("config", { files := ["hand.ts"] })] } }

/-- The module has the variable and the file. -/
theorem regionDocument_fills_config :
    ∃ c p resolved, run default regionDocument (({} : RunOptions).forTarget (some .nodejs)) = .ok c ∧
      c.package = some p ∧ c.resolved = some resolved ∧ c.errors = [] ∧ p.ConfigReserved resolved.config ∧
      (p.membersIn configModule).map Member.name = ["region", "hand.ts"] := by
  have hrun : run default regionDocument (({} : RunOptions).forTarget (some .nodejs)) =
      .ok (finished default regionDocument (({} : RunOptions).forTarget (some .nodejs))) :=
    run_eq_finished default regionDocument _ (by decide)
  obtain ⟨-, hreserved, -, -⟩ := run_fills_config default regionDocument _ hrun rfl rfl (by decide +kernel)
  exact ⟨_, _, _, hrun, rfl, rfl, by decide +kernel, hreserved.mpr (by decide +kernel), by decide +kernel⟩

/-- A document with a configuration variable and a resource whose token names the module of the variable. -/
def intruderDocument : Document where
  name := "acme"
  provider := {
    config := [("region", .scalar .string { optional := true })]
    resources := [("acme_host", [("size", .scalar .int { optional := true })])] }
  resources := [("acme_host", { token := "acme:config:Host" })]

/-- The resource stands beside the variable, and no error is recorded. -/
theorem intruderDocument_not_reserved :
    ∃ c p resolved, run default intruderDocument {} = .ok c ∧ c.takePackage = .ok p ∧
      c.resolved = some resolved ∧
      c.errors = [] ∧ (p.membersIn configModule).map Member.name = ["region", "Host"] ∧
      ¬ p.ConfigReserved resolved.config := by
  have hrun : run default intruderDocument {} = .ok (finished default intruderDocument {}) :=
    run_eq_finished default intruderDocument {} (by decide)
  have herrors : (finished default intruderDocument {}).errors = [] := by decide +kernel
  refine ⟨_, (assembled default intruderDocument {}).1, _, hrun,
    takePackage_of_no_errors herrors rfl, rfl, herrors,
    by decide +kernel, fun hreserved => ?_⟩
  obtain ⟨hresources, -⟩ :=
    (intruderDocument.configReserved_assemble_iff _ _ _ _ _ (by decide +kernel)).mp hreserved
  exact absurd hresources (by decide +kernel)

end Compilation

end ProviderSdk
