import ProviderSdk.Proofs.Compile.Targets
import ProviderSdk.Proofs.Library.Names
import ProviderSdk.Proofs.Plan.Confinement

/-!
# Libraries that stay beneath their directory

No library leaves the output directory if the names in the package do not lead out of a directory.
Otherwise it may: a module that is named by two dots puts its files beside the output directory.
-/

namespace ProviderSdk

namespace Plan

variable {p q : Plan} {entries : List PlanEntry}

theorem Confined.addAll (h : p.Confined) (hentries : AllConfined entries)
    (hadded : entries.foldlM add p = .ok q) :
    q.Confined := by
  intro e he
  obtain hp | hmore := List.mem_append.mp ((foldlM_add_eq_ok hadded).1.mem_iff.mp he)
  · exact h e hp
  · exact hentries _ (List.mem_map_of_mem hmore)

theorem Confined.addOutside (h : p.Confined) (hentries : AllConfined entries)
    (hadded : p.addOutside entries = .ok q) :
    q.Confined := h.addAll hentries (addOutside_eq_ok.mp hadded)

theorem Confined.addModules {contents : Module → Except EmitCause (List PlanEntry)} {ms : List Module}
    (h : p.Confined) (hcontents : ∀ m ∈ ms, ∀ entries, contents m = .ok entries → AllConfined entries)
    (hadded : p.addModules contents ms = .ok q) : q.Confined := by
  obtain ⟨added, hforall, hadded⟩ := addModules_eq_ok hadded
  refine h.addAll (fun path hpath => ?_) hadded
  rw [List.map_flatten] at hpath
  obtain ⟨paths, hpaths, hpath⟩ := List.mem_flatten.mp hpath
  obtain ⟨entries, hentries, rfl⟩ := List.mem_map.mp hpaths
  obtain ⟨m, hm, hcontent⟩ := exists_of_forall₂_of_mem hforall hentries
  exact hcontents m hm entries hcontent path hpath

theorem confined_empty : Plan.Confined {} := fun e he => by cases he

end Plan

section

variable {p : Package} {plan : Plan}

theorem TypeScriptLibrary.confined_indexEntry (p : Package) (m : Module) (hmodule : DirectoryName m.name) :
    AllConfined [indexEntry p m] :=
  allConfined_fileIn (confined_moduleDirectory hmodule) (by decide) _

theorem TypeScriptLibrary.confined_moduleEntries (h : p.HasConfinedNames) {m : Module} (hm : m ∈ p.modules) :
    AllConfined (moduleEntries p m) := by
  rw [moduleEntries, allConfined_append, allConfined_append]
  refine ⟨⟨?_, ?_⟩, confined_indexEntry p m (h.modules m hm)⟩
  · split
    · exact allConfined_nil
    · exact allConfined_fileIn (FileName.confined (by decide)) (by decide) _
  · exact allConfined_flatMap (fun member hmember =>
      confined_memberEntries (h.modules m hm) (h.members m hm member hmember))

theorem TypeScriptLibrary.plan_confined (h : p.HasConfinedNames)
    (hplan : TypeScriptLibrary.plan p = .ok plan) :
    plan.Confined := by
  obtain ⟨start, hstart, hplan⟩ := bind_eq_ok.mp hplan
  obtain ⟨modules, hmodules, hplan⟩ := bind_eq_ok.mp hplan
  have hstart := Plan.confined_empty.addOutside
    (allConfined_of_names ["Pulumi.yaml", "VERSION", "utilities.ts"] rfl (by decide)) hstart
  have hmodules :=
    hstart.addModules (fun m hm _ hentries => Except.ok.inj hentries ▸ confined_moduleEntries h hm) hmodules
  have hlast {indexed : Plan} (hindexed : indexed.Confined)
      (hplan : (do
        let listed ← indexed.addOutside [.fileAt "package.json" (manifest p)]
        listed.addOutside [.fileAt "tsconfig.json" (sourceList (sources listed))]) = .ok plan) :
          plan.Confined := by
    obtain ⟨listed, hlisted, hlast⟩ := bind_eq_ok.mp hplan
    have hlisted := hindexed.addOutside (allConfined_of_names ["package.json"] rfl (by decide)) hlisted
    exact hlisted.addOutside (allConfined_of_names ["tsconfig.json"] rfl (by decide)) hlast
  dsimp only at hplan
  split at hplan
  · exact hlast hmodules hplan
  · obtain ⟨indexed, hindexed, hplan⟩ := bind_eq_ok.mp hplan
    exact hlast (hmodules.addOutside (confined_indexEntry p (.empty rootModule) (by decide)) hindexed) hplan

theorem PythonLibrary.confined_indexEntry (hpackage : '/' ∉ p.name.toList) (m : Module)
    (hmodule : DirectoryName m.name) :
    AllConfined [indexEntry p m] :=
  allConfined_fileIn (confined_moduleDirectory hpackage hmodule) (by decide) _

theorem PythonLibrary.confined_moduleEntries (h : p.HasConfinedNames) {m : Module} (hm : m ∈ p.modules) :
    AllConfined (moduleEntries p m) := by
  rw [moduleEntries, allConfined_append, allConfined_append]
  refine ⟨⟨?_, ?_⟩, confined_indexEntry h.name m (h.modules m hm)⟩
  · split
    · exact allConfined_nil
    · exact allConfined_fileIn (confined_moduleDirectory h.name (by decide)) (by decide) _
  · exact allConfined_flatMap (fun member hmember =>
      confined_memberEntries h.name (h.modules m hm) (h.members m hm member hmember))

theorem PythonLibrary.plan_confined (h : p.HasConfinedNames) (hplan : PythonLibrary.plan p = .ok plan) :
    plan.Confined := by
  obtain ⟨start, hstart, hplan⟩ := bind_eq_ok.mp hplan
  obtain ⟨modules, hmodules, hplan⟩ := bind_eq_ok.mp hplan
  have hcommon : AllConfined (commonEntries p) := by
    refine allConfined_of_paths [⟨"Pulumi.yaml"⟩, ⟨"VERSION"⟩, ⟨"setup.py"⟩,
      (Path.mk (packageDirectory p.name)).join ⟨"utilities.py"⟩,
        (Path.mk (packageDirectory p.name)).join ⟨"tables.py"⟩] rfl ?_
    have hdirectory := confined_packageDirectory h.name
    simp only [List.forall_mem_cons, List.not_mem_nil, false_imp_iff, implies_true, and_true]
    exact ⟨FileName.confined (by decide), FileName.confined (by decide), FileName.confined (by decide),
      hdirectory.join (FileName.confined (by decide)), hdirectory.join (FileName.confined (by decide))⟩
  have hmodules := (Plan.confined_empty.addOutside hcommon hstart).addModules
    (fun m hm _ hentries => Except.ok.inj hentries ▸ confined_moduleEntries h hm) hmodules
  split at hplan
  · cases hplan
    exact hmodules
  · exact hmodules.addOutside (confined_indexEntry h.name (.empty rootModule) (by decide)) hplan

theorem CSharpLibrary.confined_moduleEntries (h : p.HasConfinedNames) {m : Module} (hm : m ∈ p.modules) :
    AllConfined (moduleEntries p m) := by
  rw [moduleEntries, allConfined_append]
  constructor
  · split
    · exact allConfined_nil
    · exact allConfined_fileIn (confined_moduleDirectory (by decide)) (by decide) _
  · exact allConfined_flatMap (fun member hmember =>
      confined_memberEntries p.name (h.modules m hm) (h.members m hm member hmember))

theorem CSharpLibrary.plan_confined (h : p.HasConfinedNames) (hplan : CSharpLibrary.plan p = .ok plan) :
    plan.Confined := by
  obtain ⟨start, hstart, hmodules⟩ := bind_eq_ok.mp hplan
  have hcommon : AllConfined (commonEntries p) := by
    refine allConfined_of_paths [⟨"Pulumi.yaml"⟩, ⟨"VERSION"⟩, ⟨rootNamespace p.name ++ ".csproj"⟩,
      ⟨"Utilities.cs"⟩] rfl ?_
    have hspace : '/' ∉ (rootNamespace p.name).toList := by
      intro hslash
      rw [rootNamespace, String.toList_append] at hslash
      exact (List.mem_append.mp hslash).elim (by decide) (fun hslash =>
        h.name (Text.mem_pascalCase isMark_slash hslash))
    simp only [List.forall_mem_cons, List.not_mem_nil, false_imp_iff, implies_true, and_true]
    exact ⟨FileName.confined (by decide), FileName.confined (by decide),
      Path.confined_of_extension hspace (by decide), FileName.confined (by decide)⟩
  exact (Plan.confined_empty.addOutside hcommon hstart).addModules
    (fun m hm _ hentries => Except.ok.inj hentries ▸ confined_moduleEntries h hm) hmodules

theorem GoLibrary.confined_moduleEntries (h : p.HasConfinedNames) {m : Module} (hm : m ∈ p.modules)
    {entries : List PlanEntry} (hentries : moduleEntries p m = .ok entries) : AllConfined entries := by
  obtain ⟨names, -, hentries⟩ := bind_eq_ok.mp hentries
  cases hentries
  rw [allConfined_append, allConfined_append]
  refine ⟨⟨?_, ?_⟩, ?_⟩
  · split
    · exact allConfined_nil
    · exact allConfined_fileIn (confined_moduleDirectory (by decide)) (by decide) _
  · exact allConfined_flatMap (fun member hmember =>
      confined_memberEntries p.name names (h.modules m hm) (h.members m hm member hmember))
  · split
    · exact allConfined_fileIn (confined_moduleDirectory (h.modules m hm)) (by decide) _
    · exact allConfined_nil

theorem GoLibrary.plan_confined (h : p.HasConfinedNames) (hplan : GoLibrary.plan p = .ok plan) :
    plan.Confined := by
  obtain ⟨start, hstart, hmodules⟩ := bind_eq_ok.mp hplan
  have hcommon : AllConfined (Library.commonEntries p .go ++ [.fileAt "go.mod" (moduleFile p)]) :=
    allConfined_of_names ["Pulumi.yaml", "VERSION", "go.mod"] rfl (by decide)
  exact (Plan.confined_empty.addOutside hcommon hstart).addModules
    (fun m hm _ hentries => confined_moduleEntries h hm hentries) hmodules

theorem Library.schemaPlan_confined (hplan : Library.schemaPlan p = .ok plan) : plan.Confined :=
  Plan.confined_empty.addOutside
    (allConfined_of_names ["Pulumi.yaml", "VERSION", "schema.json"] rfl (by decide)) hplan

/-- No library leaves its directory if the names in the package do not lead out of one. -/
theorem Package.HasConfinedNames.planFor (h : p.HasConfinedNames) {language : Language}
    (hplan : p.planFor language = .ok plan) : plan.Confined := by
  cases language with
  | nodejs => exact TypeScriptLibrary.plan_confined h hplan
  | python => exact PythonLibrary.plan_confined h hplan
  | dotnet => exact CSharpLibrary.plan_confined h hplan
  | go => exact GoLibrary.plan_confined h hplan
  | schema => exact Library.schemaPlan_confined hplan

end

/-- All that a planned library leads to lies beneath every output directory exactly if the paths of
the plan are confined. Writing it changes what stands where its entries lead, and makes directories
on the way; so nothing changes outside of the output directory then, but that directories that lead
to it are made. And the paths are confined, for every target, if the names in the package do not
lead out of a directory. -/
theorem Package.planFor_beneath {p : Package} {language : Language} {plan : Plan}
    (hplan : p.planFor language = .ok plan) :
    ((∀ (d : Disk) (root : Path), d.Sound → ∀ e ∈ plan.entries, d.place root <+: e.target d root) ↔
      plan.Confined) ∧
      (∀ (d : Disk) (root : Path), d.Sound →
        d.ChangesOnly (fun place => ∃ e ∈ plan.entries, d.Passes (root.join e.path) place)
          (fun place => ∃ e ∈ plan.entries, place = e.target d root) ((plan.write root).run d).2) ∧
      (plan.Confined → ∀ (d : Disk) (root : Path), d.Sound → ∀ place,
        ((plan.write root).run d).2.found place = d.found place ∨ d.place root <+: place ∨
          (d.Passes root place ∧ d.found place = .nothing ∧
            ((plan.write root).run d).2.found place = .directory)) ∧
      (p.HasConfinedNames → plan.Confined) := by
  refine ⟨Plan.confined_iff.symm, fun d root => plan.changesOnly_write root, ?_, fun h => h.planFor hplan⟩
  exact fun h d root => h.found_write root

/-- A package with a resource and a hand-written file in one module. -/
def netPackage : Package where
  name := "acme"
  version := "0.0.1"
  modules := [⟨"net", [.resource { (default : Resource) with name := "Host", fileStem := "host" },
    .overlay ⟨"Extra/Host.cs", "overlays/Host.cs"⟩]⟩]

theorem netPackage_beneath : ∃ plan, netPackage.planFor .dotnet = .ok plan ∧ netPackage.HasConfinedNames ∧
    ∀ (d : Disk) (root : Path), d.Sound → ∀ e ∈ plan.entries, d.place root <+: e.target d root := by
  have hnames : netPackage.HasConfinedNames := ⟨by decide, by decide +kernel, by decide +kernel⟩
  obtain ⟨plan, hplan⟩ : ∃ plan, netPackage.planFor .dotnet = .ok plan :=
      exists_ok_of_toBool (by decide +kernel)
  obtain ⟨hbeneath, -, -, hconfined⟩ := Package.planFor_beneath hplan
  exact ⟨plan, hplan, hnames, hbeneath.mpr (hconfined hnames)⟩

/-- A document whose only resource is in a module that is named by two dots. -/
def outerDocument : Document where
  name := "acme"
  provider := { resources := [("acme_host", [("size", .scalar .int { optional := true })])] }
  resources := [("acme_host", { token := "acme:..:Host" })]

/-- The library of the document is planned and written, and a file of it stands beside the output
directory. -/
theorem outerDocument_leaves :
    (∃ warnings, outerDocument.prepare default Compilation.plainSettings .dotnet =
        .ok ⟨Compilation.plainPackage outerDocument .dotnet, warnings⟩) ∧
      ∃ plan, (Compilation.plainPackage outerDocument .dotnet).planFor .dotnet = .ok plan ∧
        ∃ written d', (plan.write ⟨"out"⟩).run ⟨.empty, []⟩ = (.ok written, d') ∧
          (d'.fileAt ["Host.cs"]).isSome = true ∧ ¬ Disk.place ⟨.empty, []⟩ ⟨"out"⟩ <+: ["Host.cs"] := by
  refine ⟨Compilation.exists_prepared default outerDocument (by decide) (by decide +kernel), ?_⟩
  have hwrites : ((Compilation.plainPackage outerDocument .dotnet).planFor .dotnet).toOption.any (fun plan =>
      ((plan.write ⟨"out"⟩).run ⟨.empty, []⟩).1.toBool &&
        (((plan.write ⟨"out"⟩).run ⟨.empty, []⟩).2.fileAt ["Host.cs"]).isSome) = true := by decide +kernel
  obtain ⟨plan, hplan, hwrites⟩ := exists_ok_of_any hwrites
  obtain ⟨hwrites, hfile⟩ := Bool.and_eq_true_iff.mp hwrites
  obtain ⟨written, d', hrun⟩ := Plan.run_ok_of_toBool hwrites
  rw [hrun] at hfile
  exact ⟨plan, hplan, written, d', hrun, hfile, by decide +kernel⟩

end ProviderSdk
