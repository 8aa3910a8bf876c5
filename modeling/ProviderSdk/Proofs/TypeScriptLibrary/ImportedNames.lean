import Mathlib.Data.List.Nodup
import Mathlib.Data.List.Pairwise
import ProviderSdk.Proofs.Compile.Projection
import ProviderSdk.Proofs.Compile.Targets
import ProviderSdk.Proofs.TypeScriptLibrary.SourceFiles

/-!
# Imported names of TypeScript files

Custom types are imported by their bare names, with one import for every file that they come from.
So a name can come from two files, or meet a name that the importing file has already. Nothing
stands against it.
-/

namespace ProviderSdk.TypeScriptLibrary

theorem package_of_hasType {package : String} {position : Position} {f : FieldSchema} {type : TypeRef}
    (h : f.HasType package position type) : ∀ t ∈ customTokens type, t.package = package := by
  refine h.nestedInduction (motive := fun type => ∀ t ∈ customTokens type, t.package = package)
    (fun _ _ own ownAlternatives => List.forall_mem_cons.mpr ⟨own, ownAlternatives⟩)
    (fun _ => List.forall_mem_nil _)
    (fun kind => ?_) (fun type ih => ?_) (fun type ih => ?_) (fun name ps _ each => ?_)
  · cases kind <;> exact List.forall_mem_nil _
  · simpa only [customTokens] using ih
  · simpa only [customTokens] using ih
  · intro t ht
    rw [customTokens, objectTokens, propertyTokens_eq] at ht
    obtain ⟨p, hp, ht⟩ := List.mem_flatMap.mp ht
    exact (each p hp).2 t ht

def memberProperties : Member → List Property
  | .resource r => r.inputs ++ r.outputs
  | .dataSource f => f.arguments ++ f.results
  | .variable v => [v]
  | .overlay _ => []

theorem package_of_mem_assembled {disk : Disk} {document : Document} {options : RunOptions}
    (hordered : document.provider.Ordered) {module : String} {member : Member}
    (h : (module, member) ∈ (Compilation.assembled disk document options).1.placed) {p : Property}
    (hp : p ∈ memberProperties member) :
    ∀ t ∈ customTokens p.type, t.package = (Compilation.start document options).packageName := by
  have hprojected := resolve_projectedFrom hordered ((Compilation.start document options).resolveContext disk)
  have hproperties {position : Position} {selected : FieldSchema → Prop} {fields : ObjectSchema}
      {ps : List Property}
      (h : fields.HasProperties (Compilation.start document options).packageName position selected ps)
        (hp : p ∈ ps) :
      ∀ t ∈ customTokens p.type, t.package = (Compilation.start document options).packageName := by
    cases h.each p hp with | intro _ _ _ _ type =>
    exact package_of_hasType type
  obtain ⟨v, hv, rfl⟩ | ⟨r, hr, rfl⟩ | ⟨f, hf, rfl⟩ | ⟨file, rfl⟩ := Compilation.cases_of_mem_assembled h
  · rw [List.mem_singleton.mp hp]
    rcases hprojected.config with hnone | hconfig
    · exact absurd (hnone ▸ hv) List.not_mem_nil
    · cases hconfig.each v hv with | intro _ _ _ _ type =>
      exact package_of_hasType type
  · cases hprojected.resources r hr with
    | provider _ inputs outputs =>
      rw [memberProperties, outputs, List.append_nil] at hp
      exact hproperties inputs hp
    | item _ _ inputs outputs => exact (List.mem_append.mp hp).elim (hproperties inputs) (hproperties outputs)
  · cases hprojected.dataSources f hf with | item _ arguments results =>
    exact (List.mem_append.mp hp).elim (hproperties arguments) (hproperties results)
  · cases hp

theorem Grouped.nodup_names_iff {imports : List Import} (h : Grouped imports) :
    (imports.flatMap Import.names).Nodup ↔
      ∀ source source' name, Imports imports source name → Imports imports source' name →
        source = source' := by
  rw [List.nodup_flatMap]
  constructor
  · rintro ⟨-, hdisjoint⟩ _ _ name ⟨i, hi, rfl, hname⟩ ⟨j, hj, rfl, hname'⟩
    by_contra hne
    have : Std.Symm (Function.onFun List.Disjoint Import.names) := ⟨fun _ _ hij => hij.symm⟩
    exact hdisjoint.forall hi hj (fun hij => hne (by rw [hij])) hname hname'
  · intro hone
    refine ⟨fun i hi => (h.named i hi).2.2, ?_⟩
    refine (List.pairwise_map.mp h.sources).imp_of_mem (fun {i j} hi hj hne name hname hname' => ?_)
    exact hne (hone _ _ name ⟨i, hi, rfl, hname⟩ ⟨j, hj, rfl, hname'⟩)

/-- Every name that a file imports is bound by one import, and the file declares nothing of that name. -/
structure SourceFile.Unambiguous (f : SourceFile) : Prop where
  once : f.imported.Nodup
  apart : f.imported.Disjoint f.declares

namespace Subject

variable {s : Subject}

def source (s : Subject) (t : Token) : String := specifier s.module t.module (tokenStem t)

/-- What keeps the names of a file apart: imported types of one name come from one file, and neither
they nor the namespaces are named like anything else. -/
structure Apart (s : Subject) : Prop where
  sources : ∀ t ∈ s.tokens, ∀ u ∈ s.tokens, t.name = u.name → s.source t = s.source u
  tokens : ∀ t ∈ s.tokens, t.name ∉ s.namespaces ∧ t.name ∉ s.declared
  namespaces : ∀ name ∈ s.namespaces, name ∉ s.declared

instance (s : Subject) : Decidable s.Apart :=
  decidable_of_iff (_ ∧ _ ∧ _) ⟨fun h => ⟨h.1, h.2.1, h.2.2⟩, fun h => ⟨h.1, h.2, h.3⟩⟩

theorem nodup_imported_iff : s.file.imported.Nodup ↔
    (∀ t ∈ s.tokens, ∀ u ∈ s.tokens, t.name = u.name → s.source t = s.source u) ∧
      ∀ t ∈ s.tokens, t.name ∉ s.namespaces := by
  obtain ⟨hgrouped, himports⟩ := customTypeImports_spec s.module s.stem s.properties
  have hnamespaces : s.namespaces.Nodup := by
    rw [Subject.namespaces]
    cases s.reads <;> decide
  have hnames {name : String} : name ∈ (customTypeImports s.module s.stem s.properties).flatMap Import.names ↔
      ∃ t ∈ s.tokens, t.name = name := mem_importedTypes
  rw [imported_file, List.nodup_append', hgrouped.nodup_names_iff, and_iff_right hnamespaces]
  refine and_congr ⟨fun h t ht u hu hname => ?_, fun h source source' name hsource hsource' => ?_⟩
    ⟨fun h t ht hmem => ?_, fun h name hmem hname => ?_⟩
  · exact h _ _ t.name ((himports _ _).mpr ⟨t, ht, rfl, rfl⟩) ((himports _ _).mpr ⟨u, hu, rfl, hname.symm⟩)
  · obtain ⟨t, ht, rfl, rfl⟩ := (himports _ _).mp hsource
    obtain ⟨u, hu, rfl, hname⟩ := (himports _ _).mp hsource'
    exact h t ht u hu hname.symm
  · exact h hmem (hnames.mpr ⟨t, ht, rfl⟩)
  · obtain ⟨t, ht, rfl⟩ := hnames.mp hname
    exact h t ht hmem

theorem unambiguous_iff : s.file.Unambiguous ↔ s.Apart := by
  have hdisjoint : s.file.imported.Disjoint s.file.declares ↔
      (∀ t ∈ s.tokens, t.name ∉ s.declared) ∧ ∀ name ∈ s.namespaces, name ∉ s.declared := by
    rw [declares_file]
    constructor
    · intro h
      exact ⟨fun t ht => h (mem_imported_file.mpr (.inr ⟨t, ht, rfl⟩)), fun name hname =>
        h (mem_imported_file.mpr (.inl hname))⟩
    · rintro ⟨htokens, hnamespaces⟩ name hname hdeclared
      rcases mem_imported_file.mp hname with hname | ⟨t, ht, rfl⟩
      · exact hnamespaces name hname hdeclared
      · exact htokens t ht hdeclared
  constructor
  · rintro ⟨honce, hapart⟩
    obtain ⟨hsources, hnamespaces⟩ := nodup_imported_iff.mp honce
    obtain ⟨htokens, hdeclared⟩ := hdisjoint.mp hapart
    exact ⟨hsources, fun t ht => ⟨hnamespaces t ht, htokens t ht⟩, hdeclared⟩
  · rintro ⟨hsources, htokens, hnamespaces⟩
    exact ⟨nodup_imported_iff.mpr ⟨hsources, fun t ht => (htokens t ht).1⟩,
      hdisjoint.mpr ⟨fun t ht => (htokens t ht).2, hnamespaces⟩⟩

/-- Types come from files with plain names, and those that live in the file itself are declared there. -/
structure Plain (s : Subject) : Prop where
  home : IsDirectoryName s.module
  tokens : ∀ t ∈ propertyTokens s.properties, IsDirectoryName t.module ∧ IsFileName (tokenStem t)
  own : ∀ t ∈ propertyTokens s.properties, LivesIn s.module s.stem t → t.name ∈ s.declared

instance (s : Subject) : Decidable s.Plain :=
  decidable_of_iff (_ ∧ _ ∧ _) ⟨fun h => ⟨h.1, h.2.1, h.2.2⟩, fun h => ⟨h.1, h.2, h.3⟩⟩

theorem Apart.livesIn (h : s.Apart) (hplain : s.Plain) {t u : Token} (ht : t ∈ propertyTokens s.properties)
    (hu : u ∈ propertyTokens s.properties) (hname : t.name = u.name) : LivesIn u.module (tokenStem u) t := by
  have hapart {t u : Token} (ht : t ∈ propertyTokens s.properties) (hown : LivesIn s.module s.stem t)
      (hu : u ∈ propertyTokens s.properties) (hforeign : ¬ LivesIn s.module s.stem u) : t.name ≠ u.name := by
    intro hname
    exact (h.tokens u (mem_foreignTokens.mpr ⟨hu, hforeign⟩)).2 (hname ▸ hplain.own t ht hown)
  by_cases hown : LivesIn s.module s.stem t <;> by_cases hown' : LivesIn s.module s.stem u
  · rwa [hown'.1, hown'.2]
  · exact absurd hname (hapart ht hown hu hown')
  · exact absurd hname.symm (hapart hu hown' ht hown)
  · have hsource := h.sources t (mem_foreignTokens.mpr ⟨ht, hown⟩) u (mem_foreignTokens.mpr ⟨hu, hown'⟩) hname
    exact eq_of_placeFrom_specifier hplain.home (hplain.tokens t ht) (hplain.tokens u hu) []
      (congrArg _ hsource)

end Subject

theorem exists_member_of_mem_properties {p : Package} {m : Module} (hm : m ∈ p.modules) {s : Subject}
    (hs : s ∈ subjects p m) {v : Property} (hv : v ∈ s.properties) :
    ∃ member, (m.name, member) ∈ p.placed ∧ v ∈ memberProperties member := by
  rcases List.mem_append.mp hs with hs | hs
  · split at hs
    · cases hs
    · rw [List.mem_singleton.mp hs] at hv
      exact ⟨.variable v, Package.mem_placed_of_mem_configVariables hm hv, List.mem_singleton_self v⟩
  · obtain ⟨member, hmember, hsubject⟩ := List.mem_filterMap.mp hs
    refine ⟨member, List.mem_flatMap.mpr ⟨m, hm, List.mem_map_of_mem hmember⟩, ?_⟩
    cases member <;> cases hsubject <;> exact hv

/-- In the file of every resource or data source and in that of the configuration variables, the
names of the imports, which are those of namespaces and of custom types, are bound once and declared
nowhere exactly if types of one name come from one source, and neither types nor namespaces are
named like anything else in the file. Types of one name then lie in one file, if files have plain
names, and all types belong to the package of the document. -/
theorem run_unambiguous_iff (disk : Disk) (document : Document) (options : RunOptions) {c : Compilation}
    {p : Package} (hrun : Compilation.run disk document options = .ok c) (hpackage : c.package = some p)
    {m : Module}
    (hm : m ∈ p.modules) {s : Subject} (hs : s ∈ subjects p m) :
    s.file.Shows ∧ s.file.declares = s.declared ∧
      (∀ name, name ∈ s.file.imported ↔ name ∈ s.namespaces ∨ ∃ t ∈ s.tokens, t.name = name) ∧
      (s.file.Unambiguous ↔ s.Apart) ∧
      (s.file.Unambiguous → s.Plain → ∀ t ∈ propertyTokens s.properties, ∀ u ∈ propertyTokens s.properties,
        t.name = u.name → t.module = u.module ∧ tokenStem t = tokenStem u) ∧
      (document.provider.Ordered → ∀ t ∈ propertyTokens s.properties,
        t.package = (Compilation.start document options).packageName) := by
  refine ⟨s.shows_file, s.declares_file, fun _ => Subject.mem_imported_file, Subject.unambiguous_iff,
    fun h hplain _ ht _ hu hname => (Subject.unambiguous_iff.mp h).livesIn hplain ht hu hname,
      fun hordered t ht => ?_⟩
  cases Compilation.eq_finished_of_run disk document options hrun
  cases hpackage
  rw [propertyTokens_eq] at ht
  obtain ⟨v, hv, ht⟩ := List.mem_flatMap.mp ht
  obtain ⟨member, hplaced, hv⟩ := exists_member_of_mem_properties hm hs hv
  exact package_of_mem_assembled hordered hplaced hv t ht

/-- A document with a resource that has two properties of custom types, the first of which is a role. -/
def roleDocument (second : String) : Document where
  name := "acme"
  provider := { resources := [("acme_host",
    [("reader", .scalar .string { optional := true }), ("writer", .scalar .string { optional := true })])] }
  resources := [("acme_host", {
    token := "acme:index:Host"
    fields := [("reader", { type := some "acme:iam/role:Role" }), ("writer", { type := some second })] })]

def rolePackage (second : String) : Package := Compilation.plainPackage (roleDocument second) .nodejs

theorem roleDocument_unambiguous :
    ∃ c, Compilation.run default (roleDocument "acme:s3/bucket:Bucket")
        (Compilation.plainSettings.runOptions (some .nodejs)) = .ok c ∧
      c.package = some (rolePackage "acme:s3/bucket:Bucket") ∧
      (rolePackage "acme:s3/bucket:Bucket").modules.map (fun m =>
          (subjects (rolePackage "acme:s3/bucket:Bucket") m).map
            (fun s => (s.stem, s.file.imported, s.declared))) =
        [[("host", ["pulumi", "Role", "Bucket"], ["Host", "HostArgs"])]] ∧
      ∀ m ∈ (rolePackage "acme:s3/bucket:Bucket").modules,
        ∀ s ∈ subjects (rolePackage "acme:s3/bucket:Bucket") m,
        s.file.Unambiguous ∧ ∀ t ∈ propertyTokens s.properties, ∀ u ∈ propertyTokens s.properties,
          t.name = u.name → t.module = u.module ∧ tokenStem t = tokenStem u := by
  have hrun := Compilation.run_eq_finished default (roleDocument "acme:s3/bucket:Bucket")
    (Compilation.plainSettings.runOptions (some .nodejs)) (by decide)
  refine ⟨_, hrun, rfl, by decide +kernel, fun m hm s hs => ?_⟩
  have hconditions : ∀ m ∈ (rolePackage "acme:s3/bucket:Bucket").modules,
      ∀ s ∈ subjects (rolePackage "acme:s3/bucket:Bucket") m, s.Apart ∧ s.Plain := by decide +kernel
  obtain ⟨hapart, hplain⟩ := hconditions m hm s hs
  obtain ⟨-, -, -, hiff, hone, -⟩ :=
    run_unambiguous_iff (p := rolePackage "acme:s3/bucket:Bucket") default _ _ hrun rfl hm hs
  exact ⟨hiff.mpr hapart, hone (hiff.mpr hapart) hplain⟩

/-- Two types of one name are imported under this name, one after the other. -/
theorem roleDocument_ambiguous :
    (∃ warnings, (roleDocument "acme:s3/role:Role").prepare default Compilation.plainSettings .nodejs =
        .ok ⟨rolePackage "acme:s3/role:Role", warnings⟩) ∧
      (∃ plan, TypeScriptLibrary.plan (rolePackage "acme:s3/role:Role") = .ok plan ∧
        ∀ f ∈ sourceFiles (rolePackage "acme:s3/role:Role"), f.planned ∈ plan.files) ∧
      (sourceFiles (rolePackage "acme:s3/role:Role")).map (fun f =>
        (f.name, f.source.imports.map Import.statement)) =
        [("host.ts", ["import * as pulumi from \"@pulumi/pulumi\";",
            "import " ++ Code.braced " Role " ++ " from \"./iam/role\";",
            "import " ++ Code.braced " Role " ++ " from \"./s3/role\";"]),
          ("index.ts", [])] ∧
      ¬ ∀ f ∈ sourceFiles (rolePackage "acme:s3/role:Role"), f.source.Unambiguous := by
  refine ⟨Compilation.exists_prepared default (roleDocument "acme:s3/role:Role") (by decide)
    (by decide +kernel), ?_,
    by decide +kernel, fun h => ?_⟩
  · obtain ⟨plan, hplan⟩ : ∃ plan, TypeScriptLibrary.plan (rolePackage "acme:s3/role:Role") = .ok plan :=
      exists_ok_of_toBool (by decide +kernel)
    exact ⟨plan, hplan, fun f hf => planned_mem_files hplan hf⟩
  · have hnone : ¬ ∀ f ∈ sourceFiles (rolePackage "acme:s3/role:Role"),
        f.source.imported.Nodup := by decide +kernel
    exact hnone (fun f hf => (h f hf).once)

end ProviderSdk.TypeScriptLibrary
