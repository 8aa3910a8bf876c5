import ProviderSdk.Proofs.Compile.Targets
import ProviderSdk.Proofs.Library.HandWritten

/-!
# Hand-written files on their way

Every hand-written file that a document declares for a target has one fate: the package takes it, or
there is an error about it because its name is taken in its module. If there are no errors, the
library copies what is declared, one copy for each file. Of modules below modules nothing is copied,
and there is one warning for each module that has some.
-/

namespace ProviderSdk

def fileNames (files : List (String × OverlayFile)) : List (String × String) :=
  files.map (fun (module, file) => (module, file.name))

def filePlacements (files : List (String × OverlayFile)) : List Placement :=
  files.map (fun (module, file) => ⟨module, .overlay file, file.name⟩)

/-- What becomes of hand-written files, one by one, if names are taken: a file is refused if its
name is taken in its module, before or by an earlier file, and else it is placed and takes its name.
-/
def fileFates (package : String) : (taken : List (String × String)) → List (String × OverlayFile) → List Fate
  | _, [] => []
  | taken, (module, file) :: rest =>
    if (module, file.name) ∈ taken then
      .refused (Diagnostic.itemError "assemble" package file.name
        (MemberError.duplicate module file.name).message) ::
        fileFates package taken rest
    else .placed module (.overlay file) :: fileFates package ((module, file.name) :: taken) rest

/-- The copies of the files of a tree: those of the root from the directory of the tree, those of a
module from the directory of that name in it, all to the directories of their modules. -/
def OverlayTree.copies (tree : OverlayTree) (source : Path) (directory : String → Path) : List PlannedCopy :=
  tree.files.map (fun file => ⟨(directory rootModule).join ⟨file⟩, source.child file⟩) ++
    tree.modules.flatMap (fun (module, sub) =>
      sub.files.map (fun file => ⟨(directory module).join ⟨file⟩, (source.child module).child file⟩))

def copyOf? (directory : String → Path) : String × Member → Option PlannedCopy
  | (module, .overlay o) => some ⟨(directory module).join ⟨o.name⟩, o.source⟩
  | _ => none

/-- A run for a target and the run for none, with their packages: the target adds the fates of the
files of a tree, and the warnings about its modules. -/
structure Compilation.CarriesFiles (l : Language) (source : Path) (tree : OverlayTree) (bare c : Compilation)
    (p package : Package) : Prop where
  generated : ∀ placed ∈ p.placed, placed.2.isOverlay = false
  members : package.placed.Perm
    (p.placed ++ Fate.members (fileFates package.name p.takenNames (tree.placedFiles source)))
  diagnostics : c.diagnostics = bare.diagnostics ++
    (tree.modules.filter (fun (_, sub) => !sub.modules.isEmpty)).map
      (fun (module, _) => Diagnostic.warning "assemble"
      ("Modules more than one level deep not supported; sub-overlays for " ++ module ++ " skipped")) ++
    Fate.errors (fileFates package.name p.takenNames (tree.placedFiles source))
  errors : c.errors = [] ↔ bare.errors = [] ∧ (fileNames (tree.placedFiles source)).Nodup ∧
    ∀ name ∈ fileNames (tree.placedFiles source), name ∉ p.takenNames
  copies : c.errors = [] → ∀ plan, package.planFor l = .ok plan →
    plan.overlays.Perm (tree.copies source (fun module => l.moduleDirectory package.name module))

theorem filterMap_copyOf_placedFiles (tree : OverlayTree) (source : Path) (directory : String → Path) :
    ((tree.placedFiles source).map (fun (module, file) => (module, Member.overlay file))).filterMap
      (copyOf? directory) =
      tree.copies source directory := by
  have hcopies : ((fun x => copyOf? directory x) ∘ fun x : String × OverlayFile =>
      (x.1, Member.overlay x.2)) =
      some ∘ fun x : String × OverlayFile => ⟨(directory x.1).join ⟨x.2.name⟩, x.2.source⟩ := rfl
  rw [List.filterMap_map, hcopies, List.filterMap_eq_map, OverlayTree.placedFiles,
    OverlayTree.copies, List.map_append, List.map_map, List.map_flatMap]
  simp only [List.map_map]
  rfl

theorem Package.copies_eq_filterMap_placed {p : Package} {l : Language} (hl : l ≠ .schema) :
    p.copies l = p.placed.filterMap (copyOf? (fun module => l.moduleDirectory p.name module)) := by
  have hmodule (m : Module) : m.copiesTo (l.moduleDirectory p.name m.name) =
      m.placed.filterMap (copyOf? (fun module => l.moduleDirectory p.name module)) := by
    rw [Module.copiesTo, Module.overlays, Module.placed]
    induction m.members with
    | nil => rfl
    | cons member rest ih =>
      cases member with
      | overlay o => exact congrArg _ ih
      | _ => exact ih
  rw [Package.copies, if_neg hl, Package.placed, List.filterMap_flatMap]
  exact List.flatMap_congr (fun m _ => hmodule m)

section

variable {package : String} {taken taken' : List (String × String)} {files : List (String × OverlayFile)}

theorem fileFates_congr (h : ∀ name, name ∈ taken ↔ name ∈ taken') :
    fileFates package taken files = fileFates package taken' files := by
  induction files generalizing taken taken' with
  | nil => rfl
  | cons first rest ih =>
    have hcons (name : String × String) :
        name ∈ (first.1, first.2.name) :: taken ↔ name ∈ (first.1, first.2.name) :: taken' := by
      rw [List.mem_cons, List.mem_cons, h]
    simp only [fileFates, h, ih h, ih hcons]

theorem fileFates_of_free (hdistinct : (fileNames files).Nodup)
    (hfree : ∀ name ∈ fileNames files, name ∉ taken) :
    fileFates package taken files = files.map (fun (module, file) => .placed module (.overlay file)) := by
  induction files generalizing taken with
  | nil => rfl
  | cons first rest ih =>
    obtain ⟨hfirst, hrest⟩ := List.nodup_cons.mp hdistinct
    rw [fileFates, if_neg (hfree _ List.mem_cons_self), ih hrest]
    · rfl
    · intro name hname htaken
      rcases List.mem_cons.mp htaken with rfl | htaken
      · exact hfirst hname
      · exact hfree name (List.mem_cons_of_mem _ hname) htaken

/-- No file is refused exactly if all names are distinct and not taken. -/
theorem errors_fileFates_eq_nil_iff : Fate.errors (fileFates package taken files) = [] ↔
    (fileNames files).Nodup ∧ ∀ name ∈ fileNames files, name ∉ taken := by
  constructor
  · intro h
    induction files generalizing taken with
    | nil => exact ⟨.nil, by simp [fileNames]⟩
    | cons first rest ih =>
      rw [fileFates] at h
      split at h
      · cases h
      · next hfirst =>
        obtain ⟨hdistinct, hfree⟩ := ih h
        refine ⟨List.nodup_cons.mpr ⟨fun hmem => hfree _ hmem List.mem_cons_self, hdistinct⟩, ?_⟩
        exact List.forall_mem_cons.mpr ⟨hfirst, fun name hname htaken =>
          hfree name hname (List.mem_cons_of_mem _ htaken)⟩
  · rintro ⟨hdistinct, hfree⟩
    rw [fileFates_of_free hdistinct hfree, Fate.errors, List.filterMap_map]
    exact List.filterMap_eq_nil_iff.mpr (fun _ _ => rfl)

theorem members_fileFates (h : Fate.errors (fileFates package taken files) = []) :
    Fate.members (fileFates package taken files) =
      files.map (fun (module, file) => (module, .overlay file)) := by
  obtain ⟨hdistinct, hfree⟩ := errors_fileFates_eq_nil_iff.mp h
  rw [fileFates_of_free hdistinct hfree, Fate.members, List.filterMap_map]
  exact congrFun List.filterMap_eq_map files

theorem isError_fileFates : ∀ d ∈ Fate.errors (fileFates package taken files), d.isError = true := by
  induction files generalizing taken with
  | nil => simp [fileFates]
  | cons first rest ih =>
    rw [fileFates]
    split
    · exact List.forall_mem_cons.mpr ⟨rfl, ih⟩
    · exact ih

end

/-- Placing hand-written files comes to their fates: one more file is refused exactly if its name is
taken by then. -/
theorem foldl_place_files {p : Package} (hp : p.ModulesAscend) (errors : List Diagnostic)
    (files : List (String × OverlayFile)) :
    ((filePlacements files).foldl place (p, errors)).1.placed.Perm
        (p.placed ++ Fate.members (fileFates p.name p.takenNames files)) ∧
      ((filePlacements files).foldl place (p, errors)).2 =
        errors ++ Fate.errors (fileFates p.name p.takenNames files) := by
  induction files generalizing p errors with
  | nil => simp [filePlacements, fileFates]
  | cons first rest ih =>
    obtain ⟨module, file⟩ := first
    have hrefused : (∃ e, p.addMember module (.overlay file) = .error e) ↔
        (module, file.name) ∈ p.takenNames :=
      Package.addMember_eq_error_iff hp
    rw [filePlacements, List.map_cons, List.foldl_cons]
    change ((filePlacements rest).foldl place _).1.placed.Perm _ ∧ ((filePlacements rest).foldl place _).2 = _
    cases hadd : p.addMember module (.overlay file) with
    | error e =>
      have htaken : (module, file.name) ∈ p.takenNames := hrefused.mp ⟨e, hadd⟩
      have hstep : place (p, errors) ⟨module, .overlay file, file.name⟩ = (p, errors ++
          [Diagnostic.itemError "assemble" p.name file.name (MemberError.duplicate module
            file.name).message]) := by
        rw [place, hadd, Package.addMember_error hadd]
        rfl
      obtain ⟨hmembers, herrors⟩ := ih hp (errors ++
        [Diagnostic.itemError "assemble" p.name file.name (MemberError.duplicate module file.name).message])
      rw [hstep, fileFates, if_pos htaken]
      exact ⟨hmembers, by rw [herrors, List.append_assoc]; rfl⟩
    | ok p' =>
      have hfree : (module, file.name) ∉ p.takenNames := by
        intro htaken
        obtain ⟨e, he⟩ := hrefused.mpr htaken
        rw [hadd] at he
        cases he
      have hstep : place (p, errors) ⟨module, .overlay file, file.name⟩ = (p', errors) := by rw [place, hadd]
      have hnames : fileFates p'.name p'.takenNames rest =
          fileFates p.name ((module, file.name) :: p.takenNames) rest := by
        rw [Package.name_addMember hadd]
        exact fileFates_congr (fun _ => Package.mem_takenNames_addMember hadd)
      obtain ⟨hmembers, herrors⟩ := ih (hp.addMember hadd) errors
      rw [hstep, fileFates, if_neg hfree, ← hnames]
      refine ⟨hmembers.trans ?_, herrors⟩
      have hplaced :=
        (Package.placed_addMember hadd).append_right (Fate.members (fileFates p'.name p'.takenNames rest))
      rwa [List.append_assoc] at hplaced

namespace Document

variable (d : Document) (name : String) (version : Version) (overlaysDirectory : Path) (l : Language)
  (resolved : ResolvedProvider)

/-- The hand-written files that a document declares for a language; none if it says nothing of them. -/
def overlayTree (d : Document) (l : Language) : OverlayTree := (d.overlayTree? l).getD {}

def overlayFiles (d : Document) (overlaysDirectory : Path) (l : Language) : List (String × OverlayFile) :=
  (d.overlayTree l).placedFiles (overlaysDirectory.child l.name)

theorem overlayPlacements_some :
    d.overlayPlacements overlaysDirectory (some l) = filePlacements (d.overlayFiles overlaysDirectory l) := by
  rw [overlayPlacements, overlayFiles, overlayTree]
  cases d.overlayTree? l <;> rfl

theorem overlayWarnings_some : d.overlayWarnings (some l) = (d.overlayTree l).warnings := by
  rw [overlayWarnings, overlayTree, Option.bind_some]
  cases d.overlayTree? l <;> rfl

/-- For a target, the fates of its hand-written files come behind what is assembled for none. -/
theorem assemble_some {bare : Package × List Diagnostic}
    (hbare : d.assemble name version overlaysDirectory none resolved = bare) :
    (d.assemble name version overlaysDirectory (some l) resolved).1.placed.Perm (bare.1.placed ++
        Fate.members (fileFates bare.1.name bare.1.takenNames (d.overlayFiles overlaysDirectory l))) ∧
      (d.assemble name version overlaysDirectory (some l) resolved).2 =
        bare.2 ++ (d.overlayTree l).warnings.map (Diagnostic.warning "assemble") ++
          Fate.errors (fileFates bare.1.name bare.1.takenNames (d.overlayFiles overlaysDirectory l)) := by
  have hascend := d.modulesAscend_assemble name version overlaysDirectory none resolved
  rw [hbare] at hascend
  obtain ⟨hmembers, herrors⟩ := foldl_place_files hascend [] (d.overlayFiles overlaysDirectory l)
  rw [assemble_eq, ← assemble_none d name version overlaysDirectory resolved, hbare, overlayPlacements_some,
    overlayWarnings_some]
  exact ⟨hmembers, congrArg _ herrors⟩

theorem name_assemble (language : Option Language) :
    (d.assemble name version overlaysDirectory language resolved).1.name = name :=
  @assemble_preserves (fun p => p.name = name)
    (fun _ _ _ _ hadd hname => (Package.name_addMember hadd).trans hname) d _ _ _ _ _ rfl

theorem isOverlay_assemble_none {placed : String × Member}
    (h : placed ∈ (d.assemble name version overlaysDirectory none resolved).1.placed) :
    placed.2.isOverlay = false := by
  have hgenerated : AllGenerated (d.assemble name version overlaysDirectory none resolved).1.modules :=
    placeAll_allGenerated (isOverlay_placements resolved) (by simp [AllGenerated, emptyPackage])
  obtain ⟨m, hm, hplaced⟩ := List.mem_flatMap.mp h
  obtain ⟨member, hmember, rfl⟩ := List.mem_map.mp hplaced
  exact (hgenerated m hm).2 member hmember

end Document

namespace Compilation

theorem filterMap_copyOf_generated {p : Package} (h : ∀ placed ∈ p.placed, placed.2.isOverlay = false)
    (directory : String → Path) : p.placed.filterMap (copyOf? directory) = [] := by
  refine List.filterMap_eq_nil_iff.mpr ?_
  rintro ⟨module, member⟩ hplaced
  have hmember := h _ hplaced
  cases member with
  | overlay o => cases hmember
  | _ => rfl

/-- A library of which all files were taken copies them, whatever the order in which its modules stand. -/
theorem copies_perm {p package : Package} {tree : OverlayTree} {source : Path} {l : Language} {plan : Plan}
    (hp : ∀ placed ∈ p.placed, placed.2.isOverlay = false)
    (hplaced : package.placed.Perm (p.placed ++
      (tree.placedFiles source).map (fun (module, file) => (module, .overlay file))))
    (hl : l ≠ .schema) (hplan : package.planFor l = .ok plan) :
    plan.overlays.Perm (tree.copies source (fun module => l.moduleDirectory package.name module)) := by
  have hcopies := hplaced.filterMap (copyOf? (fun module => l.moduleDirectory package.name module))
  rw [List.filterMap_append, filterMap_copyOf_generated hp, filterMap_copyOf_placedFiles, List.nil_append]
    at hcopies
  rw [(Package.overlays_planFor hplan).1, Package.copies_eq_filterMap_placed hl]
  exact hcopies

/-- What the diagnostics are decides what the errors are: warnings are none, and what is said about
a file is one. -/
theorem errors_eq_nil_iff {bare c : Compilation} {package : String} {taken : List (String × String)}
    {files : List (String × OverlayFile)} {warnings : List String}
    (h : c.diagnostics = bare.diagnostics ++ warnings.map (Diagnostic.warning "assemble") ++
      Fate.errors (fileFates package taken files)) :
    c.errors = [] ↔ bare.errors = [] ∧ Fate.errors (fileFates package taken files) = [] := by
  have hwarnings : (warnings.map (Diagnostic.warning "assemble")).filter Diagnostic.isError = [] :=
    List.filter_eq_nil_iff.mpr (by simp [Diagnostic.warning, Diagnostic.isError])
  rw [errors, h, List.filter_append, List.filter_append, hwarnings, List.append_nil,
    List.filter_eq_self.mpr isError_fileFates, List.append_eq_nil_iff, errors]

theorem copies_empty (source : Path) (directory : String → Path) :
    ({} : OverlayTree).copies source directory = [] := rfl

/-- A run carries the files of a tree if it adds their fates to what the run for none has. -/
theorem carriesFiles_of_fates {l : Language} {source : Path} {tree : OverlayTree} {bare c : Compilation}
    {p package : Package} (hschema : l = .schema → tree = {})
    (hgenerated : ∀ placed ∈ p.placed, placed.2.isOverlay = false)
    (hmembers : package.placed.Perm
      (p.placed ++ Fate.members (fileFates package.name p.takenNames (tree.placedFiles source))))
    (hdiagnostics : c.diagnostics = bare.diagnostics ++ tree.warnings.map (Diagnostic.warning "assemble") ++
      Fate.errors (fileFates package.name p.takenNames (tree.placedFiles source))) :
    CarriesFiles l source tree bare c p package where
  generated := hgenerated
  members := hmembers
  diagnostics := by
    rw [hdiagnostics, OverlayTree.warnings, List.map_map]
    rfl
  errors := by rw [errors_eq_nil_iff hdiagnostics, errors_fileFates_eq_nil_iff]
  copies := by
    intro herrors plan hplan
    obtain ⟨-, hfiles⟩ := (errors_eq_nil_iff hdiagnostics).mp herrors
    rw [members_fileFates hfiles] at hmembers
    by_cases hl : l = .schema
    · obtain rfl := hschema hl
      rw [(Package.overlays_planFor hplan).1, Package.copies, if_pos hl, copies_empty]
    · exact copies_perm hgenerated hmembers hl hplan

variable (disk : Disk) (document : Document) (options : RunOptions) (l : Language)

theorem finished_carriesFiles :
    CarriesFiles l (options.overlaysDirectory.child l.name) (document.overlayTree l)
      (finished disk document (options.forTarget none)) (finished disk document (options.forTarget (some l)))
      (assembled disk document (options.forTarget none)).1
        (assembled disk document (options.forTarget (some l))).1 := by
  have hname (language : Option Language) : (assembled disk document (options.forTarget language)).1.name =
      (start document options).packageName := document.name_assemble _ _ _ _ _
  obtain ⟨hmembers, hassembled⟩ := document.assemble_some (start document options).packageName options.version
    options.overlaysDirectory l (resolution disk document options).resolved
    (rfl : _ = assembled disk document (options.forTarget none))
  rw [hname none] at hmembers hassembled
  refine carriesFiles_of_fates ?_ (fun _ => document.isOverlay_assemble_none _ _ _ _) ?_ ?_
  · rintro rfl
    rfl
  · rw [hname (some l)]
    exact hmembers
  · rw [hname (some l)]
    have hassembled : (assembled disk document (options.forTarget (some l))).2 = _ := hassembled
    simp only [finished, hassembled, List.append_assoc]
    rfl

/-- Every hand-written file that a document declares for a target is taken by the package, or there
is an error about it because its name is taken in its module. Where modules lie below a module there
is one warning and nothing else. If no errors are recorded and the library can be planned, its
copies are the declared files, each once, from its place below the directory of hand-written files
to the directory of its module. -/
theorem run_carries_files (hname : (start document options).packageName ≠ "") :
    ∃ bare c p package, run disk document (options.forTarget none) = .ok bare ∧ bare.package = some p ∧
      run disk document (options.forTarget (some l)) = .ok c ∧ c.package = some package ∧
      CarriesFiles l (options.overlaysDirectory.child l.name) (document.overlayTree l) bare c p package := by
  have hends (language : Option Language) : run disk document (options.forTarget language) =
      .ok (finished disk document (options.forTarget language)) :=
    run_eq_finished disk document (options.forTarget language) hname
  exact ⟨_, _, _, _, hends none, rfl, hends (some l), rfl, finished_carriesFiles disk document options l⟩

/-- A document with a resource and with hand-written files for Python: at the root, beside the
resource, in a module of their own, and in a module below that one. -/
def nestDocument : Document where
  name := "acme"
  provider := { resources := [("acme_host", [("size", .scalar .int { optional := true })])] }
  resources := [("acme_host", { token := "acme:net:Host" })]
  python := { overlay := some {
    files := ["hand.py", "sub/more.py"]
    modules := [("net", { files := ["hand.py"] }),
      ("aux", { files := ["tools.py"], modules := [("deep", { files := ["lost.py"] })] })] } }

/-- All files but the deepest are copied, and there is a warning instead of that one. -/
theorem nestDocument_carries_files :
    ∃ c package plan, run default nestDocument (({} : RunOptions).forTarget (some .python)) = .ok c ∧
      c.package = some package ∧ c.errors = [] ∧ package.planFor .python = .ok plan ∧
      c.diagnostics = [Diagnostic.warning "assemble"
        "Modules more than one level deep not supported; sub-overlays for aux skipped"] ∧
      plan.overlays.Perm [⟨⟨"pulumi_acme/hand.py"⟩, ⟨"overlays/python/hand.py"⟩⟩,
        ⟨⟨"pulumi_acme/sub/more.py"⟩, ⟨"overlays/python/sub/more.py"⟩⟩,
        ⟨⟨"pulumi_acme/net/hand.py"⟩, ⟨"overlays/python/net/hand.py"⟩⟩,
        ⟨⟨"pulumi_acme/aux/tools.py"⟩, ⟨"overlays/python/aux/tools.py"⟩⟩] := by
  obtain ⟨bare, c, p, package, hbare, hp, hrun, hpackage, hcarries⟩ :=
    run_carries_files default nestDocument {} .python (by decide)
  obtain rfl := eq_finished_of_run default nestDocument _ hbare
  obtain rfl := eq_finished_of_run default nestDocument _ hrun
  obtain rfl : (assembled default nestDocument (({} : RunOptions).forTarget none)).1 = p := Option.some.inj hp
  obtain rfl : (assembled default nestDocument (({} : RunOptions).forTarget (some .python))).1 = package :=
    Option.some.inj hpackage
  obtain ⟨plan, hplan⟩ : ∃ plan, (assembled default nestDocument
      (({} : RunOptions).forTarget (some .python))).1.planFor .python = .ok plan :=
        exists_ok_of_toBool (by decide +kernel)
  have herrors := hcarries.errors.mpr ⟨by decide +kernel, by decide +kernel, by decide +kernel⟩
  refine ⟨_, _, plan, hrun, rfl, herrors, hplan, hcarries.diagnostics.trans (by decide +kernel), ?_⟩
  refine (hcarries.copies herrors plan hplan).trans (List.Perm.of_eq ?_)
  decide +kernel

end Compilation

end ProviderSdk
