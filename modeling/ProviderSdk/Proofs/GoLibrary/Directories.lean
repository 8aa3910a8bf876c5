import Mathlib.Data.List.Nodup
import ProviderSdk.GoLibrary.Plan
import ProviderSdk.Proofs.Compile.Targets
import ProviderSdk.Proofs.Disk.Confinement
import ProviderSdk.Proofs.GoLibrary.Identifiers
import ProviderSdk.Proofs.Plan.Writing
import ProviderSdk.Proofs.Text.Marks

/-!
# Directories of a Go library

All files in a directory belong to one package, so that no two of them may declare the same
identifier. The identifiers of one module are distinct. Modules whose directories are the same as
they are written clash in the file of helpers, which each of them has. But directories that are
written in different ways may be one on a disk, as `.` and the top are.
-/

namespace ProviderSdk.GoLibrary

variable {p : Package} {m : Module} {entries : List PlanEntry} {f g : MemberFile}

def moduleFiles (p : Package) (m : Module) : Except EmitCause (List MemberFile) := do
  let names ← functionNames m
  .ok (memberFiles p.name m names)

/-- The files of the resources and data sources of a package, module after module. -/
def packageFiles (p : Package) : Except EmitCause (List MemberFile) := do
  let files ← p.modules.mapM (moduleFiles p)
  .ok files.flatten

theorem memberFile?_eq_some {package module : String} {names : FunctionNames} {member : Member}
    (h : memberFile? package module names member = some f) :
    f.directory = moduleDirectory module ∧ memberEntries package module names member = [.file f.planned] ∧
      isGenerated member = true := by
  cases member with
  | resource r =>
    cases h
    exact ⟨rfl, rfl, rfl⟩
  | dataSource d =>
    cases h
    exact ⟨rfl, rfl, rfl⟩
  | _ => cases h

def helpersPath : Path := ⟨"internal_utilities.go"⟩

theorem isPlain_helpersPath : helpersPath.IsPlain := by decide

/-- What the entries of a module say about the files of its members: they are planned, they lie in
one directory, and there is a file of helpers beside them. -/
structure Contributes (directory : Path) (entries : List PlanEntry) (files : List MemberFile) : Prop where
  planned : ∀ f ∈ files, .file f.planned ∈ entries
  located : ∀ f ∈ files, f.directory = directory
  helpers : files ≠ [] → ∃ e ∈ entries, e.path = directory.join helpersPath

theorem moduleEntries_eq_ok (h : moduleEntries p m = .ok entries) :
    ∃ files, moduleFiles p m = .ok files ∧ Contributes (moduleDirectory m.name) entries files := by
  obtain ⟨names, hnames, h⟩ := bind_eq_ok.mp h
  cases h
  refine ⟨memberFiles p.name m names, by rw [moduleFiles, hnames]; rfl, ?_⟩
  have hmember {f : MemberFile} (hf : f ∈ memberFiles p.name m names) :
      ∃ member ∈ m.members, memberFile? p.name m.name names member = some f := List.mem_filterMap.mp hf
  constructor
  · intro f hf
    obtain ⟨member, hmem, hfile⟩ := hmember hf
    obtain ⟨-, hentries, -⟩ := memberFile?_eq_some hfile
    have hplanned : .file f.planned ∈ m.members.flatMap (memberEntries p.name m.name names) :=
      List.mem_flatMap.mpr ⟨member, hmem, by simp [hentries]⟩
    exact List.mem_append_left _ (List.mem_append_right _ hplanned)
  · intro f hf
    obtain ⟨member, -, hfile⟩ := hmember hf
    exact (memberFile?_eq_some hfile).1
  · intro hne
    obtain ⟨f, hf⟩ := List.exists_mem_of_ne_nil _ hne
    obtain ⟨member, hmem, hfile⟩ := hmember hf
    have hgenerated : m.members.any isGenerated = true :=
      List.any_eq_true.mpr ⟨member, hmem, (memberFile?_eq_some hfile).2.2⟩
    rw [if_pos hgenerated]
    exact ⟨_, List.mem_append_right _ (List.mem_singleton_self _), rfl⟩

theorem nodup_moduleFiles {files : List MemberFile} (hm : m.NamesDistinct) (h : moduleFiles p m = .ok files) :
    (files.flatMap MemberFile.declares).Nodup := by
  obtain ⟨names, hnames, h⟩ := bind_eq_ok.mp h
  cases h
  exact nodup_declares_memberFiles p.name hm hnames

/-- Two files declare nothing in common if they lie in directories that are the same as they are written. -/
def Apart (f g : MemberFile) : Prop :=
  f.directory.same g.directory = true → List.Disjoint f.declares g.declares

/-- The files of two modules lie in different directories, since both have a file of helpers. -/
theorem Contributes.apart {directory directory' : Path} {entries entries' : List PlanEntry}
    {files files' : List MemberFile} (h : Contributes directory entries files)
    (h' : Contributes directory' entries' files')
    (hdistinct : ∀ e ∈ entries, ∀ e' ∈ entries', e.path.same e'.path = false) :
    ∀ f ∈ files, ∀ g ∈ files', Apart f g := by
  intro f hf g hg hsame
  exfalso
  obtain ⟨e, he, hpath⟩ := h.helpers (List.ne_nil_of_mem hf)
  obtain ⟨e', he', hpath'⟩ := h'.helpers (List.ne_nil_of_mem hg)
  have hhelpers := hdistinct e he e' he'
  rw [h.located f hf, h'.located g hg, Path.same_iff] at hsame
  rw [hpath, hpath', Bool.eq_false_iff, ne_eq, Path.same_iff, Path.components_join _ isPlain_helpersPath,
    Path.components_join _ isPlain_helpersPath, hsame] at hhelpers
  exact hhelpers rfl

/-- What a planned library consists of: what stands outside of modules, and what each module
contributes. All paths are different. -/
theorem exists_contributions {plan : Plan} (hplan : GoLibrary.plan p = .ok plan) :
    ∃ outside added groups, plan.entries.Perm (outside ++ added.flatten) ∧ plan.Distinct ∧
      List.Forall₂ (fun m files => moduleFiles p m = .ok files) p.modules groups ∧
      List.Forall₂ (fun entries files => ∃ directory, Contributes directory entries files) added groups := by
  obtain ⟨start, hstart, hmodules⟩ := bind_eq_ok.mp hplan
  obtain ⟨added, hcontents, hadded⟩ := Plan.addModules_eq_ok hmodules
  have hmodule (m : Module) (entries : List PlanEntry) (hentries : moduleEntries p m = .ok entries) :
      ∃ files, moduleFiles p m = .ok files ∧ ∃ directory, Contributes directory entries files := by
    obtain ⟨files, hfiles, hcontributes⟩ := moduleEntries_eq_ok hentries
    exact ⟨files, hfiles, moduleDirectory m.name, hcontributes⟩
  obtain ⟨groups, hgroups⟩ := exists_forall₂_between hcontents hmodule
  obtain ⟨-, hstartDistinct⟩ := Plan.foldlM_add_eq_ok (Plan.addOutside_eq_ok.mp hstart)
  obtain ⟨hperm, hdistinct⟩ := Plan.foldlM_add_eq_ok hadded
  exact ⟨start.entries, added, groups, hperm, hdistinct (hstartDistinct .nil), hgroups⟩

/-- If a library can be planned, its plan has the files of all resources and data sources; each
declares distinct identifiers, and two in the same directory have none in common. -/
theorem plan_apart {plan : Plan} (hp : p.NamesDistinct) (hplan : GoLibrary.plan p = .ok plan) :
    ∃ files, packageFiles p = .ok files ∧ (∀ f ∈ files, f.planned ∈ plan.files) ∧
      (∀ f ∈ files, f.declares.Nodup) ∧ files.Pairwise Apart := by
  obtain ⟨outside, added, groups, hperm, hdistinct, hgroups, hcontributes⟩ := exists_contributions hplan
  have hnodup (group : List MemberFile) (hgroup : group ∈ groups) :
      (∀ f ∈ group, f.declares.Nodup) ∧ group.Pairwise (fun f g => List.Disjoint f.declares g.declares) := by
    obtain ⟨m, hm, hfiles⟩ := exists_of_forall₂_of_mem hgroups hgroup
    exact List.nodup_flatMap.mp (nodup_moduleFiles (hp m hm) hfiles)
  refine ⟨groups.flatten, by rw [packageFiles, mapM_eq_ok_of_forall₂ hgroups]; rfl, ?_, ?_, ?_⟩
  · intro f hf
    obtain ⟨group, hgroup, hf⟩ := List.mem_flatten.mp hf
    obtain ⟨entries, hentries, directory, hcontributes⟩ := exists_of_forall₂_of_mem hcontributes hgroup
    have hmem : .file f.planned ∈ plan.entries :=
      hperm.mem_iff.mpr (List.mem_append_right _ (List.mem_flatten.mpr
        ⟨entries, hentries, hcontributes.planned f hf⟩))
    simpa [Plan.entries] using hmem
  · intro f hf
    obtain ⟨group, hgroup, hf⟩ := List.mem_flatten.mp hf
    exact (hnodup group hgroup).1 f hf
  · rw [List.pairwise_flatten]
    constructor
    · intro group hgroup
      refine (hnodup group hgroup).2.imp ?_
      exact fun hdisjoint _ => hdisjoint
    · have hsymm {a b : PlanEntry} (hab : a.path.same b.path = false) : b.path.same a.path = false := by
        rwa [Path.same_comm]
      have hpairs := (List.pairwise_append.mp ((hperm.pairwise_iff hsymm).mp hdistinct)).2.1
      refine pairwise_of_forall₂ hcontributes ?_ (List.pairwise_flatten.mp hpairs).2
      rintro entries files entries' files' ⟨directory, h⟩ ⟨directory', h'⟩ hdifferent
      exact h.apart h' hdifferent

def MemberFile.place (d : Disk) (root : Path) (f : MemberFile) : List String :=
  (PlanEntry.target d root (.file f.planned)).dropLast

/-- If files declare distinct identifiers and those in the same directory have none in common, all
of their identifiers are distinct exactly if files in different directories have none in common
either. -/
theorem nodup_declares_iff {files : List MemberFile} (hnodup : ∀ f ∈ files, f.declares.Nodup)
    (hapart : files.Pairwise Apart) :
    (files.flatMap MemberFile.declares).Nodup ↔
      files.Pairwise (fun f g => f.directory.same g.directory = false →
        List.Disjoint f.declares g.declares) := by
  rw [List.nodup_flatMap]
  constructor
  · intro h
    refine h.2.imp ?_
    exact fun hdisjoint _ => hdisjoint
  · intro h
    refine ⟨hnodup, (hapart.and h).imp (fun {f g} hboth => ?_)⟩
    cases hsame : f.directory.same g.directory with
    | true => exact hboth.1 hsame
    | false => exact hboth.2 hsame

/-- A file that is named without slashes lies where its directory leads. -/
theorem MemberFile.place_eq (d : Disk) (root : Path) (hstem : '/' ∉ f.stem.toList) :
    f.place d root = d.place (root.join f.directory) := by
  obtain ⟨hsilent, hup⟩ := @Path.ne_of_extension (Convention.go.fileName f.stem) ".go" (by decide)
  have hslash : '/' ∉ (fileName f.stem).toList := by
    rw [fileName, String.toList_append]
    exact fun hslash =>
      (List.mem_append.mp hslash).elim (fun h => hstem (Text.mem_snakeWords (by decide) h)) (by decide)
  have hsegments : (Path.mk (fileName f.stem)).segments = [fileName f.stem] := Text.split_of_not_mem hslash
  have hrelative : (Path.mk (fileName f.stem)).isAbsolute = false := (Path.confined_of_name hslash hup).1
  rw [place, PlanEntry.target, PlanEntry.path, planned,
    d.place_join_join root f.directory hrelative, hsegments, List.foldl_cons, List.foldl_nil, placeBehind,
    fileName, if_neg hsilent, if_neg hup, List.dropLast_concat]

/-- Different directories whose paths have names only lead to different places. -/
theorem MemberFile.same_of_place_eq {d : Disk} {root : Path} (hf : f.directory.IsPlain ∧ '/' ∉ f.stem.toList)
    (hg : g.directory.IsPlain ∧ '/' ∉ g.stem.toList) (hplace : f.place d root = g.place d root) :
    f.directory.same g.directory = true := by
  rw [place_eq d root hf.2, place_eq d root hg.2, d.place_join root hf.1.isAbsolute,
    d.place_join root hg.1.isAbsolute, hf.1.foldl_segments, hg.1.foldl_segments] at hplace
  exact hf.1.same hg.1 (List.append_cancel_left hplace)

/-- If a library can be planned, its plan has the files of all resources and data sources. No
identifier is declared twice in the files of one directory, whichever modules they are from. On a
disk, where directories that are written in different ways may be one, no identifier is declared
twice in a directory exactly if the files there that are put in different directories declare
nothing in common; and that is so if all directories consist of names and no file is named with a
slash. That the members of a module have distinct names is what adding them to a package takes care
of. -/
theorem plan_declares_distinct {plan : Plan} (hp : p.NamesDistinct) (hplan : GoLibrary.plan p = .ok plan) :
    ∃ files, packageFiles p = .ok files ∧ (∀ f ∈ files, f.planned ∈ plan.files) ∧
      (∀ directory, ((files.filter (fun f => f.directory.same directory)).flatMap
        MemberFile.declares).Nodup) ∧
      ∀ (d : Disk) (root : Path),
        (∀ place, ((files.filter (fun f => f.place d root = place)).flatMap MemberFile.declares).Nodup ↔
          (files.filter (fun f => f.place d root = place)).Pairwise (fun f g =>
            f.directory.same g.directory = false → List.Disjoint f.declares g.declares)) ∧
        ((∀ f ∈ files, f.directory.IsPlain ∧ '/' ∉ f.stem.toList) → ∀ place,
          ((files.filter (fun f => f.place d root = place)).flatMap MemberFile.declares).Nodup) := by
  obtain ⟨files, hfiles, hplanned, hnodup, hapart⟩ := plan_apart hp hplan
  have hiff (keeps : MemberFile → Bool) :=
    nodup_declares_iff (fun f hf => hnodup f (List.mem_of_mem_filter hf)) (hapart.filter keeps)
  have hsame (keeps : MemberFile → Bool)
      (h : ∀ f ∈ files.filter keeps, ∀ g ∈ files.filter keeps, f.directory.same g.directory = true) :
      ((files.filter keeps).flatMap MemberFile.declares).Nodup := by
    refine (hiff keeps).mpr (List.pairwise_of_forall_mem_list (fun f hf g hg hdifferent => ?_))
    rw [h f hf g hg] at hdifferent
    cases hdifferent
  refine ⟨files, hfiles, hplanned, fun directory => hsame _ (fun f hf g hg => ?_),
    fun d root => ⟨fun place => hiff _, fun hplain place => hsame _ (fun f hf g hg => ?_)⟩⟩
  · rw [List.mem_filter, Path.same_iff] at hf hg
    exact Path.same_iff.mpr (hf.2.trans hg.2.symm)
  · simp only [List.mem_filter, decide_eq_true_eq] at hf hg
    exact MemberFile.same_of_place_eq (hplain f hf.1) (hplain g hg.1) (hf.2.trans hg.2.symm)

/-- A document with a resource and a data source for it in one module, and another resource in the
root module. -/
def portDocument : Document where
  name := "acme"
  provider := {
    resources := [("acme_host", [("size", .scalar .int { optional := true })]),
      ("acme_port", [("size", .scalar .int { optional := true })])]
    dataSources := [("acme_port", [("size", .scalar .int { computed := true })])] }
  resources := [("acme_host", { token := "acme:index:Host" }), ("acme_port", { token := "acme:net:Port" })]
  dataSources := [("acme_port", { token := "acme:net:getPort" })]

/-- The data source gets a name that the look-up of the resource does not have, and nothing is
declared twice. -/
theorem portDocument_declares_distinct : (Compilation.plainPackage portDocument .go).NamesDistinct ∧
    ∃ plan files, GoLibrary.plan (Compilation.plainPackage portDocument .go) = .ok plan ∧
      packageFiles (Compilation.plainPackage portDocument .go) = .ok files ∧
      files.map MemberFile.declares = [["Host", "NewHost", "GetHost", "hostArgs", "HostArgs"],
        ["Port", "NewPort", "GetPort", "portArgs", "PortArgs"],
        ["LookupPort", "LookupPortArgs", "LookupPortResult"]] ∧
      ∀ d root place, ((files.filter (fun f => f.place d root = place)).flatMap
        MemberFile.declares).Nodup := by
  have hnames : (Compilation.plainPackage portDocument .go).NamesDistinct :=
    portDocument.namesDistinct_assemble _ _ _ _ _
  have hevaluated : (packageFiles (Compilation.plainPackage portDocument .go)).toOption.any (fun files =>
      files.map MemberFile.declares = [["Host", "NewHost", "GetHost", "hostArgs", "HostArgs"],
        ["Port", "NewPort", "GetPort", "portArgs", "PortArgs"],
        ["LookupPort", "LookupPortArgs", "LookupPortResult"]] ∧
      ∀ f ∈ files, f.directory.IsPlain ∧ '/' ∉ f.stem.toList) = true := by decide +kernel
  obtain ⟨plan, hplan⟩ : ∃ plan, GoLibrary.plan (Compilation.plainPackage portDocument .go) = .ok plan :=
    exists_ok_of_toBool (by decide +kernel)
  obtain ⟨files, hfiles, -, -, hplaces⟩ := plan_declares_distinct hnames hplan
  rw [hfiles] at hevaluated
  obtain ⟨hdeclares, hplain⟩ := of_decide_eq_true hevaluated
  exact ⟨hnames, plan, files, hplan, hfiles, hdeclares, fun d root => (hplaces d root).2 hplain⟩

/-- A document with resources of the same name in the root module and in a module that is named by a dot. -/
def dottedDocument : Document where
  name := "acme"
  provider := {
    resources := [("acme_host", [("size", .scalar .int { optional := true })]),
      ("acme_port", [("size", .scalar .int { optional := true })])] }
  resources := [("acme_host", { token := "acme:index:Host" }), ("acme_port", { token := "acme:./port:Host" })]

/-- The library of the document is planned and written, and two files in the output directory
declare the same. -/
theorem dottedDocument_declares_twice :
    (∃ warnings, dottedDocument.prepare default Compilation.plainSettings .go =
        .ok ⟨Compilation.plainPackage dottedDocument .go, warnings⟩) ∧
      ∃ plan files, GoLibrary.plan (Compilation.plainPackage dottedDocument .go) = .ok plan ∧
        packageFiles (Compilation.plainPackage dottedDocument .go) = .ok files ∧
        (∃ written d', (plan.write ⟨"out"⟩).run ⟨.empty, []⟩ = (.ok written, d') ∧
          (d'.fileAt ["out", "host.go"]).isSome = true ∧ (d'.fileAt ["out", "port.go"]).isSome = true) ∧
        ¬ ((files.filter (fun f => f.place ⟨.empty, []⟩ ⟨"out"⟩ = ["out"])).flatMap
          MemberFile.declares).Nodup := by
  refine ⟨Compilation.exists_prepared default dottedDocument (by decide) (by decide +kernel), ?_⟩
  have hwrites : (GoLibrary.plan (Compilation.plainPackage dottedDocument .go)).toOption.any (fun plan =>
      ((plan.write ⟨"out"⟩).run ⟨.empty, []⟩).1.toBool &&
        ((((plan.write ⟨"out"⟩).run ⟨.empty, []⟩).2.fileAt ["out", "host.go"]).isSome &&
          (((plan.write ⟨"out"⟩).run ⟨.empty, []⟩).2.fileAt ["out", "port.go"]).isSome)) = true := by
            decide +kernel
  have hevaluated : (packageFiles (Compilation.plainPackage dottedDocument .go)).toOption.any (fun files =>
      ¬ ((files.filter (fun f => f.place ⟨.empty, []⟩ ⟨"out"⟩ = ["out"])).flatMap
        MemberFile.declares).Nodup) = true := by
    decide +kernel
  obtain ⟨plan, hplan, hwrites⟩ := exists_ok_of_any hwrites
  obtain ⟨files, hfiles, htwice⟩ := exists_ok_of_any hevaluated
  obtain ⟨hwrites, hstand⟩ := Bool.and_eq_true_iff.mp hwrites
  obtain ⟨written, d', hrun⟩ := Plan.run_ok_of_toBool hwrites
  rw [hrun] at hstand
  exact ⟨plan, files, hplan, hfiles, ⟨written, d', hrun, Bool.and_eq_true_iff.mp hstand⟩,
    of_decide_eq_true htwice⟩

end ProviderSdk.GoLibrary
