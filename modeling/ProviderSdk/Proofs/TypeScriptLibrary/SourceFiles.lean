import ProviderSdk.Proofs.Code.Lines
import ProviderSdk.Proofs.Library.Manifests
import ProviderSdk.Proofs.TypeScriptLibrary.CustomTypes

/-!
# Source files of a TypeScript library

The source files of a package with the names that they bind: the names that they import and those
that they declare. A plan has these files and a few more that depend on no member.
-/

namespace ProviderSdk.TypeScriptLibrary

open Code

theorem foldl_contains_of_nodup {α : Type} [BEq α] [LawfulBEq α] {known items : List α}
    (h : (known ++ items).Nodup) :
    items.foldl (fun known s => if known.contains s then known else known ++ [s]) known = known ++ items := by
  induction items generalizing known with
  | nil => simp
  | cons first rest ih =>
    have hnew : first ∉ known := by
      intro hmem
      exact (List.nodup_append.mp h).2.2 first hmem first List.mem_cons_self rfl
    rw [List.append_cons] at h ⊢
    rw [List.foldl_cons, if_neg (by simpa using hnew), ih h]

namespace SourceFile

theorem distinct_of_nodup {imports : List Import} (h : imports.Nodup) : distinct imports = imports :=
  foldl_contains_of_nodup h

def imported (f : SourceFile) : List String := f.imports.flatMap Import.binds

/-- The names that a file binds at its top level. -/
def bound (f : SourceFile) : List String := f.imported ++ f.declares

end SourceFile

def declarationStarts (name : String) : List String :=
  ["export class " ++ name ++ " extends ", "export interface " ++ name ++ " ",
    "export async function " ++ name ++ "(", "export const " ++ name ++ ": ", "const " ++ name ++ " = ",
    "import * as " ++ name ++ " from "]

def HasLine (steps : List Step) (head : String) : Prop := ∃ l, Step.line l ∈ steps ∧ head.toList <+: l.toList

/-- A piece that declares names has lines that declare them, except for names with line breaks. -/
structure Item.Written (item : Item) : Prop where
  ne_nil : item.declares ≠ [] → item.fragments ≠ []
  lines : ∀ name ∈ item.declares, '\n' ∉ name.toList →
    ∃ head ∈ declarationStarts name, HasLine (stepsOf item.fragments) head

theorem ne_nil_of_hasLine {fragments : List Fragment} {head : String} (h : HasLine (stepsOf fragments) head) :
    fragments ≠ [] := by
  obtain ⟨l, hl, -⟩ := h
  rintro rfl
  cases hl

theorem hasLine_ofText (declares : List String) (before : String) {head line : String}
    (hbefore : Text.Ended before.toList) (hhead : IsLineStart head) (h : head.toList <+: line.toList) :
    HasLine (stepsOf (Item.ofText declares (before ++ line)).fragments) head := by
  obtain ⟨rest, hrest⟩ := h
  obtain rfl : head ++ String.ofList rest = line := by simp [← String.toList_inj, hrest]
  obtain ⟨l, hl, hstarts⟩ := exists_line_ofText hbefore hhead
  exact ⟨l, mem_stepsOf hl, hstarts⟩

theorem hasLine_ofSteps {declares : List String} (before : List Step) {after : List Step} {head line : String}
    (hlevel : levelAfter 0 before = 0) (hhead : IsLineStart head) (h : head.toList <+: line.toList) :
    HasLine (stepsOf (Item.ofSteps declares (before ++ .line line :: after)).fragments) head := by
  obtain ⟨rest, hrest⟩ := h
  obtain rfl : head ++ String.ofList rest = line := by simp [← String.toList_inj, hrest]
  obtain ⟨l, hl, hstarts⟩ := @exists_line_text .two before after head (String.ofList rest) hlevel hhead
  exact ⟨l, mem_stepsOf hl, hstarts⟩

/-- A name without line breaks between words. -/
theorem isLineStart_append {first last : String} (hfirst : IsLineStart first) (hlast : IsLineStart last)
    {name : String} (hname : '\n' ∉ name.toList) : IsLineStart (first ++ name ++ last) := by
  constructor
  · simp [hfirst.ne_empty]
  · simp [hfirst.not_break, hlast.not_break, hname]
  · rw [String.toList_append, List.getLast?_append_of_ne_nil _ (by simpa using hlast.ne_empty)]
    exact hlast.not_return

/-- A piece that declares one name behind a word, which another word follows. -/
theorem written_of_line {item : Item} (first last : String) {name : String}
    (hdeclares : item.declares = [name]) (hfirst : IsLineStart first) (hlast : IsLineStart last)
    (hstart : first ++ name ++ last ∈ declarationStarts name)
    (h : ∀ head, IsLineStart head → head.toList <+: (first ++ name ++ last).toList →
      HasLine (stepsOf item.fragments) head) :
    item.Written where
  ne_nil _ := ne_nil_of_hasLine (h first hfirst (by simp))
  lines := by
    intro name' hname' hbreak
    rw [hdeclares, List.mem_singleton] at hname'
    subst hname'
    exact ⟨_, hstart, h _ (isLineStart_append hfirst hlast hbreak) List.prefix_rfl⟩

theorem written_class (r : Resource) : (Item.ofSteps [r.name] (ResourceFile.classSteps r)).Written := by
  refine written_of_line "export class " " extends " rfl ⟨by decide, by decide, by decide⟩
    ⟨by decide, by decide, by decide⟩ (by simp [declarationStarts]) (fun head hhead hstarts => ?_)
  exact hasLine_ofSteps (starLines r.doc) rfl hhead (hstarts.trans (by simp [toString]))

theorem written_function (f : DataSource) :
    (Item.ofSteps [f.name] (DataSourceFile.functionSteps f)).Written := by
  refine written_of_line "export async function " "(" rfl ⟨by decide, by decide, by decide⟩
    ⟨by decide, by decide, by decide⟩ (by simp [declarationStarts]) (fun head hhead hstarts => ?_)
  exact hasLine_ofSteps (starLines f.doc) rfl hhead (hstarts.trans (by simp [toString]))

theorem written_constant (v : Property) : (ConfigFile.constant v).Written := by
  refine written_of_line "export const " ": " rfl ⟨by decide, by decide, by decide⟩
    ⟨by decide, by decide, by decide⟩ (by simp [declarationStarts]) (fun head hhead hstarts => ?_)
  exact hasLine_ofSteps (starred v.doc) rfl hhead (hstarts.trans (by simp))

theorem written_config (package : String) :
    (Item.ofText ["__config"] ("const __config = new pulumi.Config(\"" ++ package ++ "\");")).Written := by
  refine written_of_line "const " " = " rfl ⟨by decide, by decide, by decide⟩
    ⟨by decide, by decide, by decide⟩ (by simp [declarationStarts]) (fun head hhead hstarts => ?_)
  have hline : head.toList <+: ("const __config = new pulumi.Config(\"" ++ package ++ "\");").toList :=
    hstarts.trans (by simp)
  have hwritten := hasLine_ofText ["__config"] "" (.inl rfl) hhead hline
  rwa [String.empty_append] at hwritten

theorem written_interface (i : Interface) : i.item.Written := by
  have hbehind (before : List Fragment) {fs : List Fragment} {l : String} (h : Step.line l ∈ stepsOf fs) :
      Step.line l ∈ stepsOf (before ++ fs) := by
    induction before with
    | nil => exact h
    | cons f rest ih => exact List.mem_append_right _ ih
  have hline : HasLine (stepsOf i.item.fragments) ("export interface " ++ i.name ++ " ") := by
    rw [Interface.item, Interface.fragments]
    split <;> split
    all_goals
      refine ⟨_, hbehind _ List.mem_cons_self, ?_⟩
      simp [toString]
  refine ⟨fun _ => ne_nil_of_hasLine hline, fun name hname _ => ?_⟩
  rw [List.mem_singleton.mp hname]
  exact ⟨_, by simp [declarationStarts], hline⟩

/-- Every text that others are put together with stands at the start of a line. -/
theorem exists_intercalate_eq (before : List String) (line : String) (after : List String) :
    ∃ start rest, "\n".intercalate (before ++ line :: after) = start ++ (line ++ rest) ∧
      Text.Ended start.toList := by
  induction before with
  | nil =>
    cases after with
    | nil => exact ⟨"", "", by simp, .inl rfl⟩
    | cons second after =>
      refine ⟨"", "\n" ++ "\n".intercalate (second :: after), ?_, .inl rfl⟩
      rw [List.nil_append, String.intercalate_cons_cons, String.append_assoc, String.empty_append]
  | cons first before ih =>
    obtain ⟨start, rest, heq, hended⟩ := ih
    refine ⟨first ++ "\n" ++ start, rest, ?_, ?_⟩
    · rw [List.cons_append, String.intercalate_cons_of_ne_nil (by simp), heq]
      simp only [String.append_assoc]
    · rw [String.toList_append]
      exact Text.Ended.append (.inr ⟨first.toList, by simp⟩) hended

theorem written_submodules (names : List String) : ∀ item ∈ IndexFile.submodules names, item.Written := by
  have hlines {line head : String}
      (hline : line ∈ "// Export sub-modules:" ::
        names.map (fun name => (Import.everything ("./" ++ name) name).statement))
      (hhead : IsLineStart head) (h : head.toList <+: line.toList) :
      HasLine (stepsOf (Item.ofText names ("\n".intercalate ("// Export sub-modules:" ::
        names.map (fun name => (Import.everything ("./" ++ name) name).statement)))).fragments) head := by
    obtain ⟨before, after, hlines⟩ := List.append_of_mem hline
    obtain ⟨start, rest, heq, hended⟩ := exists_intercalate_eq before line after
    rw [hlines, heq]
    exact hasLine_ofText names start hended hhead (h.trans (by simp))
  intro item hitem
  rw [IndexFile.submodules] at hitem
  split at hitem
  · cases hitem
  rcases List.mem_pair.mp hitem with rfl | rfl
  · constructor
    · exact fun _ =>
        ne_nil_of_hasLine (hlines List.mem_cons_self ⟨by decide, by decide, by decide⟩ List.prefix_rfl)
    · intro name hname hbreak
      refine ⟨"import * as " ++ name ++ " from ", by simp [declarationStarts], ?_⟩
      refine hlines (List.mem_cons_of_mem _ (List.mem_map_of_mem hname))
        (isLineStart_append ⟨by decide, by decide, by decide⟩
        ⟨by decide, by decide, by decide⟩ hbreak) ?_
      simp [Import.statement, Import.everything, toString]
  · exact ⟨fun h => absurd rfl h, by simp [Export.item]⟩

theorem mem_spaced {parts : List (List Step)} {part : List Step} {step : Step} (hpart : part ∈ parts)
    (hstep : step ∈ part) :
    step ∈ spaced parts := by
  induction parts with
  | nil => cases hpart
  | cons first rest ih =>
    cases rest with
    | nil =>
      rw [List.mem_singleton.mp hpart] at hstep
      exact hstep
    | cons second rest =>
      rw [spaced]
      · rcases List.mem_cons.mp hpart with rfl | hpart
        · exact List.mem_append_left _ hstep
        · exact List.mem_append_right _ (List.mem_cons_of_mem _ (ih hpart))
      · exact List.cons_ne_nil _ _

namespace SourceFile

theorem declares_of {imports : List Import} {items : List Item} (h : ∀ i ∈ items, i.Written) :
    (SourceFile.of imports items).declares = items.flatMap Item.declares := by
  rw [declares, SourceFile.of]
  dsimp only
  induction items with
  | nil => rfl
  | cons item rest ih =>
    obtain ⟨hitem, hrest⟩ := List.forall_mem_cons.mp h
    rw [List.filter_cons, List.flatMap_cons, ← ih hrest]
    split
    · rfl
    · next hempty =>
      have hnone : item.declares = [] := by
        by_contra hdeclares
        exact hitem.ne_nil hdeclares (by simpa using hempty)
      rw [hnone, List.nil_append]

/-- What a file binds stands in it: imports as statements, and what is declared at the start of a line. -/
structure Shows (f : SourceFile) : Prop where
  imports : ∀ i ∈ f.imports, Step.line i.statement ∈ f.steps
  declares : ∀ name ∈ f.declares, '\n' ∉ name.toList → ∃ head ∈ declarationStarts name, HasLine f.steps head

theorem shows_of {imports : List Import} {items : List Item} (h : ∀ i ∈ items, i.Written) :
    (SourceFile.of imports items).Shows where
  imports i hi := List.mem_append_left _ (List.mem_append_left _ (List.mem_map_of_mem hi))
  declares name hname hbreak := by
    obtain ⟨item, hitem, hname⟩ := List.mem_flatMap.mp hname
    obtain ⟨head, hhead, l, hl, hstarts⟩ := (h item (List.mem_of_mem_filter hitem)).lines name hname hbreak
    exact ⟨head, hhead, l, List.mem_append_right _ (mem_spaced (List.mem_map_of_mem hitem) hl), hstarts⟩

end SourceFile

/-- What a file is about that has types in it: a resource or data source of a module, or
configuration variables. -/
inductive Subject where
  | resource (module : String) (r : Resource)
  | dataSource (module : String) (f : DataSource)
  | configuration (package : String) (vs : List Property)

namespace Subject

def file : Subject → SourceFile
  | resource module r => resourceFile module r
  | dataSource module f => dataSourceFile module f
  | configuration package vs => configFile package vs

def module : Subject → String
  | resource module _ => module
  | dataSource module _ => module
  | configuration _ _ => configModule

def stem : Subject → String
  | resource _ r => r.fileStem
  | dataSource _ f => f.fileStem
  | configuration _ _ => "vars"

def properties : Subject → List Property
  | resource _ r => r.inputs ++ r.outputs
  | dataSource _ f => f.arguments ++ f.results
  | configuration _ vs => vs

def reads : Subject → Bool
  | resource _ r => readsEnvironment r.inputs
  | dataSource _ _ => false
  | configuration _ vs => readsEnvironment vs

/-- The names under which the file imports everything of another. -/
def namespaces (s : Subject) : List String := "pulumi" :: if s.reads then ["utilities"] else []

def namespaceImports (s : Subject) : List Import :=
  Import.runtime :: if s.reads then [utilitiesImport s.module] else []

/-- The tokens of the custom types that the file imports. -/
def tokens (s : Subject) : List Token := foreignTokens s.module s.stem s.properties

def declared : Subject → List String
  | resource _ r => [r.name, r.argsTypeName]
  | dataSource _ f => f.name :: (if f.arguments.isEmpty then [] else [f.argsTypeName]) ++ [f.resultTypeName]
  | configuration _ vs => "__config" :: vs.map ConfigFile.constantName

/-- All files with types are put together in the same way. -/
theorem exists_items (s : Subject) : ∃ items,
    s.file = .of (s.namespaceImports ++ customTypeImports s.module s.stem s.properties) items ∧
      (∀ i ∈ items, i.Written) ∧ items.flatMap Item.declares = s.declared := by
  cases s with
  | resource module r =>
    exact ⟨_, rfl, by simpa using ⟨written_class r, written_interface (ResourceFile.argsInterface r)⟩, rfl⟩
  | dataSource module f =>
    refine ⟨_, rfl, List.forall_mem_cons.mpr ⟨written_function f, ?_⟩, ?_⟩
    · refine List.forall_mem_append.mpr ⟨?_, List.forall_mem_singleton.mpr (written_interface _)⟩
      cases f.arguments.isEmpty with
      | true => exact List.forall_mem_nil _
      | false => exact List.forall_mem_singleton.mpr (written_interface _)
    · rw [declared]
      cases f.arguments.isEmpty <;> rfl
  | configuration package vs =>
    refine ⟨_, rfl, List.forall_mem_cons.mpr ⟨written_config package, ?_⟩, ?_⟩
    · exact List.forall_mem_map.mpr (fun v _ => written_constant v)
    · rw [List.flatMap_cons, List.flatMap_map, declared, List.map_eq_flatMap]
      rfl

theorem declares_file (s : Subject) : s.file.declares = s.declared := by
  obtain ⟨items, hfile, hwritten, hdeclared⟩ := s.exists_items
  rw [hfile, SourceFile.declares_of hwritten, hdeclared]

theorem shows_file (s : Subject) : s.file.Shows := by
  obtain ⟨items, hfile, hwritten, -⟩ := s.exists_items
  rw [hfile]
  exact SourceFile.shows_of hwritten

theorem imports_file (s : Subject) :
    s.file.imports = s.namespaceImports ++ customTypeImports s.module s.stem s.properties := by
  obtain ⟨items, hfile, -, -⟩ := s.exists_items
  obtain ⟨hgrouped, -⟩ := customTypeImports_spec s.module s.stem s.properties
  rw [hfile]
  refine SourceFile.distinct_of_nodup (List.Nodup.append ?_ hgrouped.sources.of_map (fun i hi hcustom => ?_))
  · rw [namespaceImports]
    cases s.reads <;> simp [Import.runtime, utilitiesImport, Import.everything]
  · have hwhole : i.wholeName ≠ none := by
      rw [namespaceImports] at hi
      revert hi
      cases s.reads <;> simp +contextual [Import.runtime, utilitiesImport, Import.everything, or_imp]
    exact hwhole (hgrouped.named i hcustom).1

theorem imported_file (s : Subject) :
    s.file.imported = s.namespaces ++ (customTypeImports s.module s.stem s.properties).flatMap
      Import.names := by
  have hnamespaces : s.namespaceImports.flatMap Import.binds = s.namespaces := by
    rw [namespaceImports, namespaces]
    cases s.reads <;> rfl
  have hcustom : (customTypeImports s.module s.stem s.properties).flatMap Import.binds =
      (customTypeImports s.module s.stem s.properties).flatMap Import.names := by
    refine List.flatMap_congr (fun i hi => ?_)
    rw [Import.binds, ((customTypeImports_spec s.module s.stem s.properties).1.named i hi).1]
  rw [SourceFile.imported, imports_file, List.flatMap_append, hnamespaces, hcustom]

theorem mem_importedTypes {s : Subject} {name : String} :
    name ∈ (customTypeImports s.module s.stem s.properties).flatMap Import.names ↔
      ∃ t ∈ s.tokens, t.name = name := by
  obtain ⟨-, himports⟩ := customTypeImports_spec s.module s.stem s.properties
  rw [List.mem_flatMap]
  constructor
  · rintro ⟨i, hi, hname⟩
    obtain ⟨t, ht, -, hname⟩ := (himports i.source name).mp ⟨i, hi, rfl, hname⟩
    exact ⟨t, ht, hname⟩
  · rintro ⟨t, ht, rfl⟩
    obtain ⟨i, hi, -, hname⟩ := (himports _ _).mpr ⟨t, ht, rfl, rfl⟩
    exact ⟨i, hi, hname⟩

theorem mem_imported_file {s : Subject} {name : String} :
    name ∈ s.file.imported ↔ name ∈ s.namespaces ∨ ∃ t ∈ s.tokens, t.name = name := by
  rw [imported_file, List.mem_append, mem_importedTypes]

end Subject

structure LibraryFile where
  directory : Path
  name : String
  source : SourceFile

def LibraryFile.planned (f : LibraryFile) : PlannedFile := ⟨f.directory.join ⟨f.name⟩, f.source.content⟩

def Subject.libraryFile (s : Subject) : LibraryFile := ⟨moduleDirectory s.module, s.stem ++ ".ts", s.file⟩

def subject? (module : String) : Member → Option Subject
  | .resource r => some (.resource module r)
  | .dataSource f => some (.dataSource module f)
  | _ => none

def subjects (p : Package) (m : Module) : List Subject :=
  (if m.configVariables.isEmpty then [] else [.configuration p.name m.configVariables]) ++
    m.members.filterMap (subject? m.name)

def indexOf (p : Package) (m : Module) : LibraryFile :=
  ⟨moduleDirectory m.name, "index.ts", indexFile m (if m.isRoot then p.submodules.map (·.name) else [])⟩

def moduleFiles (p : Package) (m : Module) : List LibraryFile :=
  (subjects p m).map Subject.libraryFile ++ [indexOf p m]

def sourceFiles (p : Package) : List LibraryFile :=
  p.modules.flatMap (moduleFiles p) ++ if p.root?.isSome then [] else [indexOf p (.empty rootModule)]

def projectFiles (p : Package) (sources : List String) : List PlannedFile :=
  [⟨⟨"Pulumi.yaml"⟩, Library.descriptorText p .nodejs⟩, ⟨⟨"VERSION"⟩, Library.versionText p⟩,
    ⟨⟨"utilities.ts"⟩, utilities p.version⟩, ⟨⟨"package.json"⟩, manifest p⟩,
    ⟨⟨"tsconfig.json"⟩, sourceList sources⟩]

variable {p : Package} {f : LibraryFile}

theorem planned_configuration (package : String) (vs : List Property) :
    (Subject.configuration package vs).libraryFile.planned =
      ⟨(Path.mk configModule).join ⟨"vars.ts"⟩, (configFile package vs).content⟩ := by
  have hname : "vars" ++ ".ts" = "vars.ts" := by decide
  have hdirectory : moduleDirectory configModule = ⟨configModule⟩ := rfl
  rw [← hname, ← hdirectory]
  rfl

theorem files_moduleEntries (p : Package) (m : Module) :
    (moduleEntries p m).filterMap PlanEntry.file? = (moduleFiles p m).map LibraryFile.planned := by
  have hmembers (members : List Member) : (members.flatMap (memberEntries m.name)).filterMap PlanEntry.file? =
      (members.filterMap (subject? m.name)).map (fun s => s.libraryFile.planned) := by
    induction members with
    | nil => rfl
    | cons member rest ih =>
      rw [List.flatMap_cons, List.filterMap_append, ih]
      cases member <;> rfl
  simp only [moduleEntries, moduleFiles, subjects, List.filterMap_append, List.map_append,
    List.map_map, hmembers]
  split
  · rfl
  · rw [List.map_singleton, Function.comp_apply, planned_configuration]
    rfl

/-- A plan has the source files of the package and five files more. -/
theorem files_plan {plan : Plan} (hplan : TypeScriptLibrary.plan p = .ok plan) :
    ∃ sources, plan.files.Perm (projectFiles p sources ++ (sourceFiles p).map LibraryFile.planned) := by
  obtain ⟨listed, -, hlisted, hperm⟩ := entries_plan hplan
  refine ⟨TypeScriptLibrary.sources listed, ?_⟩
  have hmodules : (p.modules.flatMap (moduleEntries p)).filterMap PlanEntry.file? =
      (p.modules.flatMap (moduleFiles p)).map LibraryFile.planned := by
    rw [List.filterMap_flatMap, List.map_flatMap]
    exact List.flatMap_congr (fun m _ => files_moduleEntries p m)
  have hroot : (p.rootEntries (indexEntry p)).filterMap PlanEntry.file? =
      (if p.root?.isSome then [] else [indexOf p (.empty rootModule)]).map LibraryFile.planned := by
    rw [Package.rootEntries]
    split <;> rfl
  have hfiles := (hperm.trans (hlisted.append_right _)).filterMap PlanEntry.file?
  simp only [List.filterMap_append, Plan.filterMap_file?_entries, hmodules, hroot, List.append_assoc]
    at hfiles
  have hlast (outside modules root manifests : List PlannedFile) :
      (outside ++ (modules ++ (root ++ manifests))).Perm (outside ++ manifests ++ (modules ++ root)) := by
    rw [← List.append_assoc modules, List.append_assoc outside]
    exact List.perm_append_comm.append_left outside
  rw [sourceFiles, List.map_append]
  exact hfiles.trans (hlast _ _ _ _)

theorem planned_mem_files {plan : Plan} (hplan : TypeScriptLibrary.plan p = .ok plan)
    (h : f ∈ sourceFiles p) :
    f.planned ∈ plan.files := by
  obtain ⟨sources, hfiles⟩ := files_plan hplan
  exact hfiles.mem_iff.mpr (List.mem_append_right _ (List.mem_map_of_mem h))

theorem mem_sourceFiles : f ∈ sourceFiles p ↔
    (∃ m ∈ p.modules, ∃ s ∈ subjects p m, s.libraryFile = f) ∨
      ∃ m, (m ∈ p.modules ∨ (p.root? = none ∧ m = .empty rootModule)) ∧ indexOf p m = f := by
  have hroot : f ∈ (if p.root?.isSome then [] else [indexOf p (.empty rootModule)]) ↔
      p.root? = none ∧ indexOf p (.empty rootModule) = f := by
    cases p.root? <;> simp [eq_comm]
  simp only [sourceFiles, List.mem_append, hroot, List.mem_flatMap, moduleFiles, List.mem_map,
    List.mem_singleton]
  constructor
  · rintro (⟨m, hm, ⟨s, hs, rfl⟩ | rfl⟩ | ⟨hnone, rfl⟩)
    · exact .inl ⟨m, hm, s, hs, rfl⟩
    · exact .inr ⟨m, .inl hm, rfl⟩
    · exact .inr ⟨_, .inr ⟨hnone, rfl⟩, rfl⟩
  · rintro (⟨m, hm, s, hs, rfl⟩ | ⟨m, hm | ⟨hnone, rfl⟩, rfl⟩)
    · exact .inl ⟨m, hm, .inl ⟨s, hs, rfl⟩⟩
    · exact .inl ⟨m, hm, .inr rfl⟩
    · exact .inr ⟨hnone, rfl⟩

theorem written_indexFile (stems submodules : List String) :
    ∀ i ∈ IndexFile.exports stems ++ IndexFile.submodules submodules, Item.Written i := by
  refine List.forall_mem_append.mpr ⟨fun i hi => ?_, written_submodules submodules⟩
  rw [IndexFile.exports] at hi
  split at hi
  · cases hi
  · rw [List.mem_singleton.mp hi]
    exact ⟨fun h => absurd rfl h, by simp [Item.ofText]⟩

theorem declares_indexFile (m : Module) (submodules : List String) :
    (indexFile m submodules).declares = submodules := by
  refine (SourceFile.declares_of (written_indexFile _ submodules)).trans ?_
  have hexports (stems : List String) : (IndexFile.exports stems).flatMap Item.declares = [] := by
    rw [IndexFile.exports]
    split <;> rfl
  rw [List.flatMap_append, hexports, IndexFile.submodules, List.nil_append]
  split
  · next hnone => exact (List.isEmpty_iff.mp hnone).symm
  · exact List.append_nil _

theorem shows_of_mem (h : f ∈ sourceFiles p) : f.source.Shows := by
  rcases mem_sourceFiles.mp h with ⟨m, -, s, -, rfl⟩ | ⟨m, -, rfl⟩
  · exact s.shows_file
  · exact SourceFile.shows_of (written_indexFile _ _)

end ProviderSdk.TypeScriptLibrary
