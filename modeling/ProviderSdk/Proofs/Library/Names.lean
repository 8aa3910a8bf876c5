import ProviderSdk.Library.Target
import ProviderSdk.Proofs.Disk.Confinement
import ProviderSdk.Proofs.Plan.Additions
import ProviderSdk.Proofs.Text.Marks

/-!
# Names of directories and files

Where the files of a library lie comes from the names in the package: a module has a directory named
after it, a member a file, and hand-written files keep their names. These names are not checked.
They do not lead out of a directory if none of them has slashes, no module is named by two dots, and
the paths of hand-written files are confined.
-/

namespace ProviderSdk

/-- The names from which the file of a member is named do not lead out of the directory of its module. -/
def Member.HasConfinedNames : Member → Prop
  | .resource r => '/' ∉ r.name.toList ∧ '/' ∉ r.fileStem.toList
  | .dataSource f => '/' ∉ f.name.toList ∧ '/' ∉ f.fileStem.toList
  | .overlay o => Path.Confined ⟨o.name⟩
  | .variable _ => True

instance : DecidablePred Member.HasConfinedNames
  | .resource _ => inferInstanceAs (Decidable (_ ∧ _))
  | .dataSource _ => inferInstanceAs (Decidable (_ ∧ _))
  | .overlay _ => inferInstanceAs (Decidable (Path.Confined _))
  | .variable _ => .isTrue trivial

/-- The name of a module leads to a directory below that of the library. It is not two dots,
whatever dashes and underscores are between them, since not all languages keep these. -/
def DirectoryName (name : String) : Prop := '/' ∉ name.toList ∧ Text.withoutJoints name ≠ ['.', '.']

instance (name : String) : Decidable (DirectoryName name) := inferInstanceAs (Decidable (_ ∧ _))

/-- The names in a package do not lead out of a directory. -/
structure Package.HasConfinedNames (p : Package) : Prop where
  name : '/' ∉ p.name.toList
  modules : ∀ m ∈ p.modules, DirectoryName m.name
  members : ∀ m ∈ p.modules, ∀ member ∈ m.members, member.HasConfinedNames

theorem Path.confined_of_extension {stem extension : String} (hstem : '/' ∉ stem.toList)
    (hextension : '/' ∉ extension.toList ∧ 2 < extension.length) : Path.Confined ⟨stem ++ extension⟩ :=
  confined_of_name (by simpa using ⟨hstem, hextension.1⟩) (ne_of_extension stem hextension.2).2

def FileName (name : String) : Prop := '/' ∉ name.toList ∧ name ≠ ".."

instance (name : String) : Decidable (FileName name) := inferInstanceAs (Decidable (_ ∧ _))

theorem FileName.confined {name : String} (h : FileName name) : Path.Confined ⟨name⟩ :=
  Path.confined_of_name h.1 h.2

@[simp] theorem PlanEntry.path_fileIn (directory : Path) (name content : String) :
    (PlanEntry.fileIn directory name content).path = directory.join ⟨name⟩ := rfl

@[simp] theorem PlanEntry.path_overlayIn (directory : Path) (o : OverlayFile) :
    (PlanEntry.overlayIn directory o).path = directory.join ⟨o.name⟩ := rfl

section

variable {name : String}

theorem isMark_slash : Text.IsMark '/' := by decide

theorem isMark_of_eq_dots {other : String} (h : other = "..") : ∀ c ∈ other.toList, Text.IsMark c := by
  intro c hc
  rw [h] at hc
  obtain rfl : c = '.' := by simpa using hc
  decide

/-- A name that is two dots once it is written in another way was two dots before. -/
theorem DirectoryName.ne_of_withoutJoints_eq {other : String} (h : DirectoryName name)
    (hother : other = ".." → Text.withoutJoints name = other.toList) : other ≠ ".." := by
  intro hdots
  refine h.2 ?_
  rw [hother hdots, hdots]
  rfl

theorem DirectoryName.confined (h : DirectoryName name) : Path.Confined ⟨name⟩ :=
  Path.confined_of_name h.1 (h.ne_of_withoutJoints_eq (by rintro rfl; decide))

theorem TypeScriptLibrary.confined_moduleDirectory (h : DirectoryName name) :
    (moduleDirectory name).Confined := by
  rw [moduleDirectory]
  split
  · exact FileName.confined (by decide)
  · exact h.confined

theorem CSharpLibrary.confined_moduleDirectory (h : DirectoryName name) :
    (moduleDirectory name).Confined := by
  rw [moduleDirectory]
  split
  · exact FileName.confined (by decide)
  · refine Path.confined_of_name (fun hslash => h.1 (Text.mem_pascalCase isMark_slash hslash)) ?_
    exact h.ne_of_withoutJoints_eq (fun hdots => (Text.pascalCase_eq (isMark_of_eq_dots hdots)).symm)

theorem GoLibrary.packageName_eq (name : String) :
    packageName name = Text.lower (String.ofList (name.toList.filter (fun c => c != '-'))) ∨
      packageName name = Text.lower (String.ofList (name.toList.filter (fun c => c != '-'))) ++ "_" := by
  rw [packageName, Convention.safe]
  split
  · exact .inr rfl
  · exact .inl rfl

theorem GoLibrary.mem_packageName (h : '/' ∈ (packageName name).toList) : '/' ∈ name.toList := by
  have hlower (h : '/' ∈ (Text.lower (String.ofList (name.toList.filter (fun c => c != '-')))).toList) :
      '/' ∈ name.toList := by
    have hmem := Text.mem_lower isMark_slash h
    rw [String.toList_ofList] at hmem
    exact (List.mem_filter.mp hmem).1
  obtain heq | heq := packageName_eq name
  · exact hlower (heq ▸ h)
  · rw [heq, String.toList_append] at h
    exact hlower ((List.mem_append.mp h).resolve_right (by decide))

theorem GoLibrary.confined_moduleDirectory (h : DirectoryName name) : (moduleDirectory name).Confined := by
  rw [moduleDirectory]
  split
  · exact FileName.confined (by decide)
  · refine Path.confined_of_name (fun hslash => h.1 (mem_packageName hslash))
      (h.ne_of_withoutJoints_eq (fun hdots => ?_))
    obtain heq | heq := packageName_eq name
    · rw [heq] at hdots ⊢
      have hchars := (Text.lower_eq (isMark_of_eq_dots hdots)).trans String.toList_ofList
      rw [hdots] at hchars
      have hjoints : Text.withoutJoints name =
          (name.toList.filter (fun c => c != '-')).filter (fun c => c != '_') := by
        rw [Text.withoutJoints, List.filter_filter]
        refine List.filter_congr (fun c _ => ?_)
        simp [Text.isJoint, bne]
      rw [hdots, hjoints, ← hchars]
      rfl
    · rw [heq] at hdots
      have hlast := congrArg (fun s => s.toList.getLast?) hdots
      simp at hlast

theorem PythonLibrary.confined_packageDirectory (h : '/' ∉ name.toList) :
    Path.Confined ⟨packageDirectory name⟩ := by
  refine Path.confined_of_name (fun hslash => ?_) (fun hdots => ?_)
  · rw [packageDirectory, String.toList_append] at hslash
    obtain hslash | hslash := List.mem_append.mp hslash
    · exact absurd hslash (by decide)
    · exact (Text.mem_replace hslash).elim (by decide) h
  · have hfirst := congrArg (fun s => s.toList.head?) hdots
    simp [packageDirectory] at hfirst

theorem PythonLibrary.confined_moduleDirectory {package : String} (hpackage : '/' ∉ package.toList)
    (h : DirectoryName name) : (moduleDirectory package name).Confined := by
  rw [moduleDirectory]
  split
  · exact confined_packageDirectory hpackage
  · exact (confined_packageDirectory hpackage).join h.confined

end

def Member.pathsIn (directory : Path) (resourceFile : Resource → String)
    (dataSourceFile : DataSource → String) :
    Member → List Path
  | .resource r => [directory.join ⟨resourceFile r⟩]
  | .dataSource f => [directory.join ⟨dataSourceFile f⟩]
  | .overlay o => [directory.join ⟨o.name⟩]
  | .variable _ => []

theorem Member.confined_pathsIn {directory : Path} {resourceFile : Resource → String}
    {dataSourceFile : DataSource → String} (hdirectory : directory.Confined)
    (hresource : ∀ r, '/' ∉ r.name.toList → '/' ∉ r.fileStem.toList → Path.Confined ⟨resourceFile r⟩)
    (hdataSource : ∀ f, '/' ∉ f.name.toList → '/' ∉ f.fileStem.toList → Path.Confined ⟨dataSourceFile f⟩)
    {member : Member} (h : member.HasConfinedNames) :
    ∀ path ∈ member.pathsIn directory resourceFile dataSourceFile, path.Confined := by
  intro path hpath
  cases member with
  | resource r =>
    rw [List.mem_singleton.mp hpath]
    exact hdirectory.join (hresource r h.1 h.2)
  | dataSource f =>
    rw [List.mem_singleton.mp hpath]
    exact hdirectory.join (hdataSource f h.1 h.2)
  | overlay o =>
    rw [List.mem_singleton.mp hpath]
    exact hdirectory.join h
  | _ => cases hpath

def AllConfined (entries : List PlanEntry) : Prop := ∀ path ∈ entries.map PlanEntry.path, path.Confined

theorem allConfined_of_paths {entries : List PlanEntry} (paths : List Path)
    (hpaths : entries.map PlanEntry.path = paths) (h : ∀ path ∈ paths, path.Confined) :
    AllConfined entries := by
  rwa [AllConfined, hpaths]

theorem allConfined_of_names {entries : List PlanEntry} (names : List String)
    (hpaths : entries.map PlanEntry.path = names.map Path.mk) (h : ∀ name ∈ names, FileName name) :
    AllConfined entries := by
  refine allConfined_of_paths _ hpaths (fun path hpath => ?_)
  obtain ⟨name, hname, rfl⟩ := List.mem_map.mp hpath
  exact (h name hname).confined

theorem allConfined_nil : AllConfined [] := allConfined_of_names [] rfl (by decide)

theorem allConfined_fileIn {directory : Path} (hdirectory : directory.Confined) {name : String}
    (hname : FileName name) (content : String) : AllConfined [.fileIn directory name content] := by
  refine allConfined_of_paths [directory.join ⟨name⟩] rfl ?_
  rw [List.forall_mem_singleton]
  exact hdirectory.join hname.confined

theorem allConfined_append {entries more : List PlanEntry} :
    AllConfined (entries ++ more) ↔ AllConfined entries ∧ AllConfined more := by
  rw [AllConfined, List.map_append, List.forall_mem_append]
  rfl

theorem allConfined_flatMap {members : List Member} {entries : Member → List PlanEntry}
    (h : ∀ member ∈ members, AllConfined (entries member)) : AllConfined (members.flatMap entries) := by
  intro path hpath
  rw [List.map_flatMap] at hpath
  obtain ⟨member, hmember, hpath⟩ := List.mem_flatMap.mp hpath
  exact h member hmember path hpath

section

variable {m : Module} {member : Member}

theorem TypeScriptLibrary.confined_memberEntries (hmodule : DirectoryName m.name)
    (h : member.HasConfinedNames) :
    AllConfined (memberEntries m.name member) := by
  have hpaths : (memberEntries m.name member).map PlanEntry.path =
      member.pathsIn (moduleDirectory m.name) (fun r => r.fileStem ++ ".ts")
        (fun f => f.fileStem ++ ".ts") := by
    cases member <;> simp [memberEntries, Member.pathsIn]
  rw [AllConfined, hpaths]
  exact Member.confined_pathsIn (confined_moduleDirectory hmodule)
    (fun _ _ hstem => Path.confined_of_extension hstem (by decide))
    (fun _ _ hstem => Path.confined_of_extension hstem (by decide)) h

theorem PythonLibrary.confined_memberEntries {package : String} (hpackage : '/' ∉ package.toList)
    (hmodule : DirectoryName m.name) (h : member.HasConfinedNames) :
    AllConfined (memberEntries (moduleDirectory package m.name) m.name member) := by
  have hpaths : (memberEntries (moduleDirectory package m.name) m.name member).map PlanEntry.path =
      member.pathsIn (moduleDirectory package m.name) (fun r => fileName r.fileStem)
        (fun f => fileName f.fileStem) := by
    cases member <;> simp [memberEntries, Member.pathsIn]
  have hfile {stem : String} (hstem : '/' ∉ stem.toList) : Path.Confined ⟨fileName stem⟩ :=
    Path.confined_of_extension (fun hslash => hstem (Text.mem_snakeWords isMark_slash hslash)) (by decide)
  rw [AllConfined, hpaths]
  exact Member.confined_pathsIn (confined_moduleDirectory hpackage hmodule) (fun _ _ => hfile)
    (fun _ _ => hfile) h

theorem CSharpLibrary.confined_memberEntries (package : String) (hmodule : DirectoryName m.name)
    (h : member.HasConfinedNames) : AllConfined (memberEntries package m.name member) := by
  have hpaths : (memberEntries package m.name member).map PlanEntry.path =
      member.pathsIn (moduleDirectory m.name) (fun r => r.name ++ ".cs")
        (fun f => DataSourceFile.className f ++ ".cs") := by
    cases member <;> simp [memberEntries, Member.pathsIn]
  rw [AllConfined, hpaths]
  refine Member.confined_pathsIn (confined_moduleDirectory hmodule)
    (fun _ hname _ => Path.confined_of_extension hname (by decide)) (fun f hname _ => ?_) h
  exact Path.confined_of_extension (fun hslash => hname (Text.mem_upperFirst isMark_slash hslash)) (by decide)

theorem GoLibrary.confined_memberEntries (package : String) (names : FunctionNames)
    (hmodule : DirectoryName m.name) (h : member.HasConfinedNames) :
    AllConfined (memberEntries package m.name names member) := by
  have hpaths : (memberEntries package m.name names member).map PlanEntry.path =
      member.pathsIn (moduleDirectory m.name) (fun r => fileName r.fileStem)
        (fun f => fileName f.fileStem) := by
    cases member <;> simp [memberEntries, Member.pathsIn]
  have hfile {stem : String} (hstem : '/' ∉ stem.toList) : Path.Confined ⟨fileName stem⟩ :=
    Path.confined_of_extension (fun hslash => hstem (Text.mem_snakeWords isMark_slash hslash)) (by decide)
  rw [AllConfined, hpaths]
  exact Member.confined_pathsIn (confined_moduleDirectory hmodule) (fun _ _ => hfile) (fun _ _ => hfile) h

end

end ProviderSdk
