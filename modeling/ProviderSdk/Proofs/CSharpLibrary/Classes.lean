import Mathlib.Data.List.Nodup
import ProviderSdk.CSharpLibrary.Plan
import ProviderSdk.GoLibrary.Plan
import ProviderSdk.Proofs.Compile.ObjectNames
import ProviderSdk.Proofs.Compile.Targets
import ProviderSdk.Proofs.Disk.Paths
import ProviderSdk.Proofs.Plan.Additions

/-!
# Classes of a C# library

A source file is named for its first class, and whatever else it declares has a name that begins
with that of this class. All that planning checks is that no two files have the same path. So two
files of one namespace can declare the same class only if the name of one begins with the name of
the other; and two files have the same name in one namespace only if one of them lies at the top and
the other in the directory of the configuration, which share the namespace of the package.
-/

namespace ProviderSdk.CSharpLibrary

/-- A source file with the directory that it is put in and the text that it has. -/
structure ClassFile where
  directory : Path
  source : SourceFile
  content : String

namespace ClassFile

def declares (f : ClassFile) : List String := f.source.classes.map (·.name)

def name (f : ClassFile) : String := f.declares.headD ""

def planned (f : ClassFile) : PlannedFile := ⟨f.directory.join ⟨f.name ++ ".cs"⟩, f.content⟩

def ofSource (directory : Path) (f : SourceFile) : ClassFile := ⟨directory, f, f.content⟩

end ClassFile

def memberFile? (package module : String) : Member → Option ClassFile
  | .resource r => some (.ofSource (moduleDirectory module) (resourceFile package module r))
  | .dataSource f => some (.ofSource (moduleDirectory module) (dataSourceFile package module f))
  | _ => none

def moduleFiles (package : String) (m : Module) : List ClassFile :=
  (if m.configVariables.isEmpty then []
   else [.ofSource (moduleDirectory configModule) (configFile package m.configVariables)]) ++
    m.members.filterMap (memberFile? package m.name)

def utilitiesFile (p : Package) : ClassFile :=
  ⟨moduleDirectory rootModule, ⟨rootNamespace p.name, [Utilities.utilitiesClass p.version]⟩,
    utilities p.name p.version⟩

def packageFiles (p : Package) : List ClassFile := utilitiesFile p :: p.modules.flatMap (moduleFiles p.name)

def projectFiles (p : Package) : List PlannedFile :=
  [⟨⟨"Pulumi.yaml"⟩, Library.descriptorText p .dotnet⟩, ⟨⟨"VERSION"⟩, Library.versionText p⟩,
    ⟨⟨rootNamespace p.name ++ ".csproj"⟩, projectFile p⟩]

variable {p : Package} {f g : ClassFile}

theorem planned_utilitiesFile (p : Package) :
    (utilitiesFile p).planned = ⟨⟨"Utilities.cs"⟩, utilities p.name p.version⟩ := by
  have hpath : (moduleDirectory rootModule).join ⟨"Utilities" ++ ".cs"⟩ = ⟨"Utilities.cs"⟩ := by
    decide +kernel
  rw [ClassFile.planned, ← hpath]
  rfl

theorem files_memberEntries (package module : String) (member : Member) :
    (memberEntries package module member).filterMap PlanEntry.file? =
      (memberFile? package module member).toList.map ClassFile.planned := by
  cases member <;> rfl

theorem files_members (package module : String) (members : List Member) :
    (members.flatMap (memberEntries package module)).filterMap PlanEntry.file? =
      (members.filterMap (memberFile? package module)).map ClassFile.planned := by
  induction members with
  | nil => rfl
  | cons member rest ih =>
    rw [List.flatMap_cons, List.filterMap_append, files_memberEntries, ih, List.filterMap_cons]
    cases memberFile? package module member <;> rfl

theorem files_moduleEntries (p : Package) (m : Module) :
    (moduleEntries p m).filterMap PlanEntry.file? = (moduleFiles p.name m).map ClassFile.planned := by
  rw [moduleEntries, moduleFiles, List.filterMap_append, List.map_append, files_members]
  split <;> rfl

theorem files_modules {ms : List Module} {added : List (List PlanEntry)}
    (h : List.Forall₂ (fun m entries => (.ok (moduleEntries p m) : Except EmitCause _) = .ok entries)
      ms added) :
    added.flatten.filterMap PlanEntry.file? = (ms.flatMap (moduleFiles p.name)).map ClassFile.planned := by
  induction h with
  | nil => rfl
  | cons hentries _ ih =>
    cases hentries
    rw [List.flatten_cons, List.filterMap_append, ih, List.flatMap_cons, List.map_append, files_moduleEntries]

/-- A plan has the source files of the package and three files more, and no two of its files have
the same path. -/
theorem files_plan {plan : Plan} (hplan : CSharpLibrary.plan p = .ok plan) :
    plan.files.Perm (projectFiles p ++ (packageFiles p).map ClassFile.planned) ∧ plan.Distinct := by
  obtain ⟨start, hstart, hmodules⟩ := bind_eq_ok.mp hplan
  obtain ⟨added, hcontents, hadded⟩ := Plan.addModules_eq_ok hmodules
  obtain ⟨hcommon, hstartDistinct⟩ := Plan.foldlM_add_eq_ok (Plan.addOutside_eq_ok.mp hstart)
  obtain ⟨hperm, hdistinct⟩ := Plan.foldlM_add_eq_ok hadded
  refine ⟨?_, hdistinct (hstartDistinct .nil)⟩
  have hfiles := (hperm.trans (hcommon.append_right _)).filterMap PlanEntry.file?
  rw [List.filterMap_append, files_modules hcontents, Plan.filterMap_file?_entries] at hfiles
  refine hfiles.trans (List.Perm.of_eq ?_)
  rw [packageFiles, List.map_cons, planned_utilitiesFile]
  rfl

def objectNames (ps : List Property) : List String :=
  (firstByName [] (nestedObjects ps)).map (fun o => o.2.name)

theorem names_objectClasses (use : ArgumentUse) (ps : List Property) :
    (objectClasses use ps).map (·.name) = objectNames ps := by
  have hname (o : Position × ObjectType) : (objectClass use o).name = o.2.name := by
    obtain ⟨position, o⟩ := o
    cases position <;> rfl
  rw [objectClasses, List.map_map, objectNames]
  exact List.map_congr_left (fun o _ => hname o)

theorem mem_firstByName {known : List String} {objects : List (Position × ObjectType)} {name : String} :
    name ∈ (firstByName known objects).map (fun o => o.2.name) ↔
      name ∈ objects.map (fun o => o.2.name) ∧ name ∉ known := by
  induction objects generalizing known with
  | nil => simp [firstByName]
  | cons first rest ih =>
    obtain ⟨position, o⟩ := first
    rw [firstByName, List.map_cons, List.mem_cons]
    split
    · next hknown =>
      have hmem : o.name ∈ known := by simpa using hknown
      rw [ih]
      constructor
      · exact fun h => ⟨.inr h.1, h.2⟩
      · rintro ⟨rfl | h, hnot⟩
        · exact absurd hmem hnot
        · exact ⟨h, hnot⟩
    · next hnew =>
      have hnot : o.name ∉ known := by simpa using hnew
      rw [List.map_cons, List.mem_cons, ih, List.mem_cons]
      constructor
      · rintro (rfl | ⟨h, hother⟩)
        · exact ⟨.inl rfl, hnot⟩
        · exact ⟨.inr h, fun hknown => hother (.inr hknown)⟩
      · rintro ⟨rfl | h, hother⟩
        · exact .inl rfl
        · by_cases heq : name = o.name
          · exact .inl heq
          · exact .inr ⟨h, fun hmem => hmem.elim heq hother⟩

theorem nodup_firstByName (known : List String) (objects : List (Position × ObjectType)) :
    ((firstByName known objects).map (fun o => o.2.name)).Nodup := by
  induction objects generalizing known with
  | nil => exact .nil
  | cons first rest ih =>
    obtain ⟨position, o⟩ := first
    rw [firstByName]
    split
    · exact ih known
    · refine List.nodup_cons.mpr ⟨fun hmem => ?_, ih _⟩
      exact (mem_firstByName.mp hmem).2 List.mem_cons_self

theorem nodup_objectNames (ps : List Property) : (objectNames ps).Nodup := nodup_firstByName [] _

theorem mem_objectNames {ps : List Property} {name : String} :
    name ∈ objectNames ps ↔ ∃ o ∈ propertyObjects ps, o.name = name := by
  rw [objectNames, mem_firstByName, propertyObjects_eq]
  simp only [nestedObjects, List.map_flatMap, List.map_map, List.not_mem_nil, not_false_eq_true, and_true,
    List.mem_flatMap, List.mem_map, Function.comp_apply]
  constructor
  · rintro ⟨p, hp, o, ho, hname⟩
    exact ⟨o, ⟨p, hp, ho⟩, hname⟩
  · rintro ⟨o, ⟨p, hp, ho⟩, hname⟩
    exact ⟨p, hp, o, ho, hname⟩

def ownClasses : Member → List String
  | .resource r => [r.name, r.argsTypeName]
  | .dataSource f => [DataSourceFile.className f, f.argsTypeName, f.resultTypeName]
  | _ => []

def ownProperties : Member → List Property
  | .resource r => r.inputs ++ r.outputs
  | .dataSource f => f.arguments ++ f.results
  | _ => []

variable {package module : String} {member : Member}

theorem declares_memberFile (h : memberFile? package module member = some f) :
    f.declares = ownClasses member ++ objectNames (ownProperties member) := by
  cases member with
  | resource r =>
    cases h
    simp only [ClassFile.declares, ClassFile.ofSource, resourceFile, List.map_append, names_objectClasses]
    rfl
  | dataSource d =>
    cases h
    simp only [ClassFile.declares, ClassFile.ofSource, dataSourceFile, List.map_append, names_objectClasses]
    rfl
  | _ => cases h

theorem nodup_ownClasses (member : Member) : (ownClasses member).Nodup := by
  have hsuffix (name suffix : String) (hsuffix : suffix ≠ "") : name ≠ name ++ suffix := by
    intro h
    exact hsuffix (String.append_right_inj name |>.mp (by rw [← h, String.append_empty]))
  cases member with
  | resource r => simpa [ownClasses, Resource.argsTypeName] using hsuffix r.name "Args" (by decide)
  | dataSource d =>
    have hargs := hsuffix (DataSourceFile.className d) "Args" (by decide)
    have hresult := hsuffix (DataSourceFile.className d) "Result" (by decide)
    simp only [ownClasses, List.nodup_cons, List.mem_cons, List.not_mem_nil, or_false, not_or,
      not_false_eq_true, List.nodup_nil, and_true]
    refine ⟨⟨hargs, hresult⟩, fun h => ?_⟩
    rw [DataSource.argsTypeName, DataSource.resultTypeName, String.append_right_inj] at h
    exact absurd h (by decide)
  | _ => exact .nil

/-- The file of a member declares no class twice exactly if no object type is named like one of its
own classes. -/
theorem nodup_declares_memberFile (h : memberFile? package module member = some f) :
    f.declares.Nodup ↔ ∀ o ∈ propertyObjects (ownProperties member), o.name ∉ ownClasses member := by
  rw [declares_memberFile h, List.nodup_append']
  constructor
  · rintro ⟨-, -, hdisjoint⟩ o ho hmem
    exact hdisjoint hmem (mem_objectNames.mpr ⟨o, ho, rfl⟩)
  · intro hapart
    refine ⟨nodup_ownClasses member, nodup_objectNames _, fun name hmem hobject => ?_⟩
    obtain ⟨o, ho, rfl⟩ := mem_objectNames.mp hobject
    exact hapart o ho hmem

def ClassFile.Begins (f : ClassFile) : Prop := ∀ name ∈ f.declares, f.name.toList <+: name.toList

theorem begins_memberFile (hobjects : member.ObjectsNamed) (h : memberFile? package module member = some f) :
    f.Begins := by
  have hdeclares := declares_memberFile h
  intro name hname
  rw [ClassFile.name]
  rw [hdeclares] at hname ⊢
  rw [List.mem_append, mem_objectNames] at hname
  cases member with
  | resource r =>
    rcases hname with hname | ⟨o, ho, rfl⟩
    · simp only [ownClasses, List.mem_cons, List.not_mem_nil, or_false] at hname
      rcases hname with rfl | rfl
      · exact List.prefix_refl _
      · exact begins_append _ _
    · exact hobjects o ho
  | dataSource d =>
    rcases hname with hname | ⟨o, ho, rfl⟩
    · simp only [ownClasses, List.mem_cons, List.not_mem_nil, or_false] at hname
      rcases hname with rfl | rfl | rfl
      · exact List.prefix_refl _
      · exact begins_append _ _
      · exact begins_append _ _
    · exact hobjects o ho
  | _ => cases h

def ClassFile.Related (f g : ClassFile) : Prop :=
  f.name.toList <+: g.name.toList ∨ g.name.toList <+: f.name.toList

theorem ClassFile.Begins.disjoint (hf : f.Begins) (hg : g.Begins) (h : ¬ f.Related g) :
    List.Disjoint f.declares g.declares := by
  intro name hname hname'
  exact h (List.prefix_or_prefix_of_prefix (hf name hname) (hg name hname'))

/-- Files declare no class twice exactly if none of them does so alone, nor two of which one begins
with the other's name. -/
theorem nodup_declares_iff {files : List ClassFile} (hbegins : ∀ f ∈ files, f.Begins) :
    (files.flatMap ClassFile.declares).Nodup ↔ (∀ f ∈ files, f.declares.Nodup) ∧
      files.Pairwise (fun f g => f.Related g → List.Disjoint f.declares g.declares) := by
  rw [List.nodup_flatMap]
  refine and_congr_right' ⟨fun h => h.imp ?_, fun h => h.imp_of_mem (fun {f g} hf hg hrelated => ?_)⟩
  · exact fun hdisjoint _ => hdisjoint
  · by_cases h : f.Related g
    · exact hrelated h
    · exact (hbegins f hf).disjoint (hbegins g hg) h

/-- Where a file lies decides on its namespace: that of the package is for the top and the directory
of the configuration, every other is named after a directory. -/
def ClassFile.Located (package : String) (f : ClassFile) : Prop :=
  (f.source.scope = rootNamespace package ∧
      (f.directory = moduleDirectory rootModule ∨ f.directory = moduleDirectory configModule)) ∨
    f.source.scope = rootNamespace package ++ "." ++ f.directory.text

theorem located_of_module (hscope : f.source.scope = moduleNamespace package module)
    (hdirectory : f.directory = moduleDirectory module) : f.Located package := by
  by_cases hroot : module = rootModule
  · subst hroot
    exact .inl ⟨hscope, .inl hdirectory⟩
  by_cases hconfig : module = configModule
  · subst hconfig
    exact .inl ⟨hscope, .inr hdirectory⟩
  · right
    rw [hscope, hdirectory, moduleNamespace, if_neg (by simp [hroot, hconfig]), moduleDirectory, if_neg hroot]

/-- Two files of one name in one namespace lie at the top and in the directory of the configuration. -/
structure ClassFile.Shared (package : String) (f g : ClassFile) : Prop where
  scope : f.source.scope = rootNamespace package
  directories : (f.directory = moduleDirectory rootModule ∧ g.directory = moduleDirectory configModule) ∨
    (f.directory = moduleDirectory configModule ∧ g.directory = moduleDirectory rootModule)

theorem ClassFile.Located.shared (hf : f.Located package) (hg : g.Located package)
    (hpaths : f.planned.path.same g.planned.path = false) (hscope : f.source.scope = g.source.scope)
    (hname : f.name = g.name) : f.Shared package g := by
  have hdirectory : f.directory ≠ g.directory := by
    intro h
    rw [planned, planned, hname, h, Bool.eq_false_iff, ne_eq, Path.same_iff] at hpaths
    exact hpaths rfl
  have hlonger (rest : String) : rootNamespace package ≠ rootNamespace package ++ "." ++ rest := by
    intro h
    have hlength := congrArg String.length h
    simp only [String.length_append] at hlength
    have hdot : ".".length = 1 := rfl
    omega
  rcases hf with ⟨hf, hdirectories⟩ | hf <;> rcases hg with ⟨hg, hdirectories'⟩ | hg
  · refine ⟨hf, ?_⟩
    rcases hdirectories with h | h <;> rcases hdirectories' with h' | h'
    · exact absurd (h.trans h'.symm) hdirectory
    · exact .inl ⟨h, h'⟩
    · exact .inr ⟨h, h'⟩
    · exact absurd (h.trans h'.symm) hdirectory
  · exact absurd (hf.symm.trans (hscope.trans hg)) (hlonger _)
  · exact absurd (hg.symm.trans (hscope.symm.trans hf)) (hlonger _)
  · rw [hf, hg, String.append_right_inj] at hscope
    refine absurd ?_ hdirectory
    cases hfd : f.directory
    cases hgd : g.directory
    rw [hfd, hgd] at hscope
    exact congrArg Path.mk hscope

theorem mem_packageFiles (h : f ∈ packageFiles p) :
    f = utilitiesFile p ∨ (∃ vs, f = .ofSource (moduleDirectory configModule) (configFile p.name vs)) ∨
      ∃ m ∈ p.modules, ∃ member ∈ m.members, memberFile? p.name m.name member = some f := by
  rcases List.mem_cons.mp h with h | h
  · exact .inl h
  obtain ⟨m, hm, h⟩ := List.mem_flatMap.mp h
  rcases List.mem_append.mp h with h | h
  · split at h
    · cases h
    · exact .inr (.inl ⟨m.configVariables, List.mem_singleton.mp h⟩)
  · obtain ⟨member, hmember, hfile⟩ := List.mem_filterMap.mp h
    exact .inr (.inr ⟨m, hm, member, hmember, hfile⟩)

theorem located_of_mem (h : f ∈ packageFiles p) : f.Located p.name := by
  obtain rfl | ⟨vs, rfl⟩ | ⟨m, -, member, -, hfile⟩ := mem_packageFiles h
  · exact .inl ⟨rfl, .inl rfl⟩
  · exact .inl ⟨rfl, .inr rfl⟩
  · cases member <;> cases hfile <;> exact located_of_module rfl rfl

theorem begins_of_mem (hobjects : ∀ placed ∈ p.placed, placed.2.ObjectsNamed) (h : f ∈ packageFiles p) :
    f.Begins := by
  obtain rfl | ⟨vs, rfl⟩ | ⟨m, hm, member, hmember, hfile⟩ := mem_packageFiles h
  · exact List.forall_mem_singleton.mpr (List.prefix_refl _)
  · exact List.forall_mem_singleton.mpr (List.prefix_refl _)
  · have hplaced : (m.name, member) ∈ p.placed :=
      List.mem_flatMap.mpr ⟨m, hm, List.mem_map_of_mem hmember⟩
    exact begins_memberFile (hobjects _ hplaced) hfile

/-- Two files of a plan that have one name and one namespace share that of the package. -/
theorem pairwise_shared {plan : Plan} (hplan : CSharpLibrary.plan p = .ok plan) :
    (packageFiles p).Pairwise (fun f g => f.source.scope = g.source.scope → f.name = g.name →
      f.Shared p.name g) := by
  obtain ⟨hfiles, hdistinct⟩ := files_plan hplan
  have hpaths : plan.files.Pairwise (fun a b => a.path.same b.path = false) :=
    List.pairwise_map.mp (List.pairwise_append.mp hdistinct).1
  have hsymm {a b : PlannedFile} (hab : a.path.same b.path = false) : b.path.same a.path = false := by
    rwa [Path.same_comm]
  have hsources := (List.pairwise_append.mp ((hfiles.pairwise_iff hsymm).mp hpaths)).2.1
  refine (List.pairwise_map.mp hsources).imp_of_mem (fun {f g} hf hg hpath => ?_)
  exact (located_of_mem hf).shared (located_of_mem hg) hpath

/-- If the library of an assembled package can be planned, its source files declare, namespace by
namespace, no class twice exactly if no file does so alone, and no two of which one begins with the
other's name. A file alone does so exactly if an object type is named like one of the other classes
of its member. Two files have the same name in one namespace only at the top and in the directory of
the configuration. -/
theorem run_declares_distinct_iff (disk : Disk) (document : Document) (options : RunOptions) {c : Compilation}
    {plan : Plan} (hrun : Compilation.run disk document options = .ok c) (hpackage : c.package = some p)
    (hplan : CSharpLibrary.plan p = .ok plan) :
    plan.files.Perm (projectFiles p ++ (packageFiles p).map ClassFile.planned) ∧
      (∀ m ∈ p.modules, ∀ member ∈ m.members, ∀ f, memberFile? p.name m.name member = some f →
        (f.declares.Nodup ↔ ∀ o ∈ propertyObjects (ownProperties member), o.name ∉ ownClasses member)) ∧
      (packageFiles p).Pairwise (fun f g => f.source.scope = g.source.scope → f.name = g.name →
        f.Shared p.name g) ∧
      ∀ scope, (((packageFiles p).filter (fun f => f.source.scope = scope)).flatMap
        ClassFile.declares).Nodup ↔
        (∀ f ∈ (packageFiles p).filter (fun f => f.source.scope = scope), f.declares.Nodup) ∧
        ((packageFiles p).filter (fun f => f.source.scope = scope)).Pairwise (fun f g =>
          f.Related g → List.Disjoint f.declares g.declares) := by
  refine ⟨(files_plan hplan).1, fun m _ member _ f hf => nodup_declares_memberFile hf, pairwise_shared hplan,
    fun scope => nodup_declares_iff (fun f hf => ?_)⟩
  cases Compilation.eq_finished_of_run disk document options hrun
  cases hpackage
  refine begins_of_mem ?_ (List.mem_of_mem_filter hf)
  rintro ⟨module, member⟩ hplaced
  exact Compilation.objectsNamed_of_mem_assembled disk document options hplaced

/-- A document with a configuration variable, a resource whose inputs and outputs have object types,
and a data source. -/
def groupDocument : Document where
  name := "acme"
  provider := {
    config := [("region", .scalar .string {})]
    resources := [("acme_host", [("groups", .collection .list
      (.object [("size", .scalar .int { optional := true })]) { optional := true })])]
    dataSources := [("acme_port", [("size", .scalar .int { computed := true })])] }
  resources := [("acme_host", { token := "acme:index:Host" })]
  dataSources := [("acme_port", { token := "acme:net:getPort" })]

theorem groupDocument_declares_distinct :
    ∃ c plan, Compilation.run default groupDocument (Compilation.plainSettings.runOptions (some .dotnet)) =
      .ok c ∧
      c.package = some (Compilation.plainPackage groupDocument .dotnet) ∧
      CSharpLibrary.plan (Compilation.plainPackage groupDocument .dotnet) = .ok plan ∧
      (packageFiles (Compilation.plainPackage groupDocument .dotnet)).map ClassFile.declares =
        [["Utilities"], ["Config"], ["Provider", "ProviderArgs"],
          ["Host", "HostArgs", "HostArgsGroup", "HostGroup"], ["GetPort", "GetPortArgs", "GetPortResult"]] ∧
      ∀ scope, (((packageFiles (Compilation.plainPackage groupDocument .dotnet)).filter
        (fun f => f.source.scope = scope)).flatMap ClassFile.declares).Nodup := by
  have hrun :=
    Compilation.run_eq_finished default groupDocument (Compilation.plainSettings.runOptions (some .dotnet))
    (by decide)
  obtain ⟨plan, hplan⟩ : ∃ plan, CSharpLibrary.plan (Compilation.plainPackage groupDocument .dotnet) =
      .ok plan :=
    exists_ok_of_toBool (by decide +kernel)
  obtain ⟨-, -, -, hiff⟩ := run_declares_distinct_iff default groupDocument _ hrun rfl hplan
  refine ⟨_, plan, hrun, rfl, hplan, by decide +kernel, fun scope => (hiff scope).mpr ⟨fun f hf => ?_, ?_⟩⟩
  · have hnodup : ∀ f ∈ packageFiles (Compilation.plainPackage groupDocument .dotnet), f.declares.Nodup := by
      decide +kernel
    exact hnodup f (List.mem_of_mem_filter hf)
  · have hrelated : (packageFiles (Compilation.plainPackage groupDocument .dotnet)).Pairwise
        (fun f g => ¬ (f.name.toList <+: g.name.toList ∨ g.name.toList <+: f.name.toList)) := by
          decide +kernel
    exact (hrelated.imp (fun hnot h => absurd h hnot)).filter _

/-- A document with two resources, one of them named like the arguments of the other. -/
def argsDocument : Document where
  name := "acme"
  provider := {
    resources := [("acme_host", [("size", .scalar .int { optional := true })]),
      ("acme_host_args", [("size", .scalar .int { optional := true })])] }
  resources :=
    [("acme_host", { token := "acme:index:Host" }), ("acme_host_args", { token := "acme:index:HostArgs" })]

/-- The library is planned, and two of its files declare a class of one name in one namespace. The
Go library of the same document cannot be planned for that reason. -/
theorem argsDocument_declares_twice :
    (∃ warnings, argsDocument.prepare default Compilation.plainSettings .dotnet =
        .ok ⟨Compilation.plainPackage argsDocument .dotnet, warnings⟩) ∧
      (∃ plan, CSharpLibrary.plan (Compilation.plainPackage argsDocument .dotnet) = .ok plan ∧
        ∀ f ∈ packageFiles (Compilation.plainPackage argsDocument .dotnet), f.planned ∈ plan.files) ∧
      ¬ (((packageFiles (Compilation.plainPackage argsDocument .dotnet)).filter
        (fun f => f.source.scope = "Pulumi.Acme")).flatMap ClassFile.declares).Nodup ∧
      GoLibrary.plan (Compilation.plainPackage argsDocument .go) =
        .error ⟨some "index", .identifierTwice "HostArgs"
        "resource acme:index:Host" "resource acme:index:HostArgs"⟩ := by
  refine ⟨Compilation.exists_prepared default argsDocument (by decide) (by decide +kernel), ?_,
    by decide +kernel,
    by decide +kernel⟩
  obtain ⟨plan, hplan⟩ : ∃ plan, CSharpLibrary.plan (Compilation.plainPackage argsDocument .dotnet) =
      .ok plan :=
    exists_ok_of_toBool (by decide +kernel)
  refine ⟨plan, hplan, fun f hf => (files_plan hplan).1.mem_iff.mpr ?_⟩
  exact List.mem_append_right _ (List.mem_map_of_mem hf)

end ProviderSdk.CSharpLibrary
