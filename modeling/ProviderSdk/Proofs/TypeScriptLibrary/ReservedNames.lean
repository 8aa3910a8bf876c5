import ProviderSdk.Proofs.Compile.Targets
import ProviderSdk.Proofs.TypeScriptLibrary.SourceFiles

/-!
# Reserved words in TypeScript files

What a file binds at its top level is made of names in four ways. The constants of configuration
variables get out of the way of reserved words, and no reserved word ends like the name of an
interface. But classes, functions, custom types and modules are named as the document names them.
-/

namespace ProviderSdk.TypeScriptLibrary

theorem isReserved_append (name : String) {ending : String}
    (h : ∀ word ∈ Convention.typeScript.reserved, ¬ ending.toList <:+ word.toList) :
    Convention.typeScript.isReserved (name ++ ending) = false := by
  by_contra hreserved
  rw [Bool.not_eq_false, Convention.isReserved, List.contains_iff_mem] at hreserved
  refine h _ hreserved ?_
  rw [String.toList_append]
  exact List.suffix_append _ _

/-- The name of a field is not reserved: no reserved word begins with an underscore. -/
theorem isReserved_fieldName (name : String) :
    Convention.typeScript.isReserved (Convention.typeScript.fieldName name) = false := by
  have hwords : ∀ word ∈ Convention.typeScript.reserved, ¬ ['_'] <+: word.toList := by decide
  rw [Convention.fieldName, Convention.safe]
  split
  · by_contra hreserved
    rw [Bool.not_eq_false, Convention.isReserved, List.contains_iff_mem] at hreserved
    refine hwords _ hreserved ?_
    change ['_'] <+: ("_" ++ _).toList
    rw [String.toList_append]
    exact List.prefix_append _ _
  · next h => simpa using h

variable {p : Package}

def Subject.ownName? : Subject → Option String
  | .resource _ r => some r.name
  | .dataSource _ f => some f.name
  | .configuration _ _ => none

/-- The names that files take as the document gives them: those of resources and data sources, of
the custom types that they import, and of the modules that the index at the root offers. -/
def givenNames (p : Package) : List String :=
  p.modules.flatMap (fun m => (subjects p m).flatMap (fun s =>
    s.ownName?.toList ++ s.tokens.map Token.name)) ++
    p.submodules.map (·.name)

theorem mem_givenNames {name : String} : name ∈ givenNames p ↔
    (∃ m ∈ p.modules, ∃ s ∈ subjects p m, s.ownName? = some name ∨ ∃ t ∈ s.tokens, t.name = name) ∨
      ∃ m ∈ p.submodules, m.name = name := by
  simp only [givenNames, List.mem_append, List.mem_flatMap, Option.mem_toList, List.mem_map]

theorem Subject.mem_bound_iff {s : Subject} {word : String}
    (hword : Convention.typeScript.isReserved word = true) :
    word ∈ s.file.bound ↔ s.ownName? = some word ∨ ∃ t ∈ s.tokens, t.name = word := by
  have hne (name : String) (h : Convention.typeScript.isReserved name = false) : word ≠ name := by
    rintro rfl
    exact absurd hword (by rw [h]; decide)
  have hargs (name : String) : word ≠ name ++ "Args" := hne _ (isReserved_append name (by decide))
  have hresult (name : String) : word ≠ name ++ "Result" := hne _ (isReserved_append name (by decide))
  have hnamespaces : word ∉ s.namespaces := by
    rw [Subject.namespaces]
    cases s.reads <;> simp [hne "pulumi" (by decide), hne "utilities" (by decide)]
  have hdeclared : word ∈ s.declared ↔ s.ownName? = some word := by
    cases s with
    | resource module r => simp [declared, ownName?, Resource.argsTypeName, hargs, eq_comm]
    | dataSource module f =>
      rw [declared, DataSource.argsTypeName, DataSource.resultTypeName]
      cases f.arguments.isEmpty <;> simp [ownName?, hargs, hresult, eq_comm]
    | configuration package vs =>
      have hconstants : ∀ v ∈ vs, word ≠ ConfigFile.constantName v :=
          fun v _ => hne _ (isReserved_fieldName v.name)
      simpa [declared, ownName?, hne "__config" (by decide), eq_comm] using hconstants
  rw [SourceFile.bound, List.mem_append, mem_imported_file, declares_file, hdeclared, or_comm]
  simp only [hnamespaces, false_or]

/-- A reserved word is bound by some file exactly if the document gives it as a name. -/
theorem exists_bound_iff {word : String} (hword : Convention.typeScript.isReserved word = true) :
    (∃ f ∈ sourceFiles p, word ∈ f.source.bound) ↔ word ∈ givenNames p := by
  have hindex (m : Module) : (indexOf p m).source.bound =
      if m.isRoot then p.submodules.map (·.name) else [] :=
    declares_indexFile m _
  rw [mem_givenNames]
  constructor
  · rintro ⟨f, hf, hbound⟩
    rcases mem_sourceFiles.mp hf with ⟨m, hm, s, hs, rfl⟩ | ⟨m, -, rfl⟩
    · exact .inl ⟨m, hm, s, hs, (Subject.mem_bound_iff hword).mp hbound⟩
    · rw [hindex] at hbound
      split at hbound
      · exact .inr (List.mem_map.mp hbound)
      · cases hbound
  · rintro (⟨m, hm, s, hs, hname⟩ | hsubmodule)
    · exact ⟨_, mem_sourceFiles.mpr (.inl ⟨m, hm, s, hs, rfl⟩), (Subject.mem_bound_iff hword).mpr hname⟩
    · obtain ⟨root, hroot, hmem⟩ : ∃ root : Module, root.isRoot = true ∧
          (root ∈ p.modules ∨ (p.root? = none ∧ root = .empty rootModule)) := by
        cases hnone : p.root? with
        | none => exact ⟨_, rfl, .inr ⟨rfl, rfl⟩⟩
        | some root =>
          exact ⟨root, List.find?_some (p := Module.isRoot) hnone, .inl (List.mem_of_find?_eq_some hnone)⟩
      refine ⟨_, mem_sourceFiles.mpr (.inr ⟨root, hmem, rfl⟩), ?_⟩
      rw [hindex, if_pos hroot]
      exact List.mem_map.mpr hsubmodule

/-- The files of a planned library bind no reserved word at their top level, neither by an import
nor by a declaration, exactly if the document gives no reserved word as a name to a resource, a data
source, an imported type or a module other than the root. -/
theorem plan_unreserved_iff {plan : Plan} (hplan : TypeScriptLibrary.plan p = .ok plan) :
    (∃ sources, plan.files.Perm (projectFiles p sources ++ (sourceFiles p).map LibraryFile.planned)) ∧
      (∀ f ∈ sourceFiles p, f.source.Shows) ∧
      (∀ word, Convention.typeScript.isReserved word = true →
        ((∃ f ∈ sourceFiles p, word ∈ f.source.bound) ↔ word ∈ givenNames p)) ∧
      ((∀ f ∈ sourceFiles p, ∀ name ∈ f.source.bound, Convention.typeScript.isReserved name = false) ↔
        ∀ name ∈ givenNames p, Convention.typeScript.isReserved name = false) := by
  refine ⟨files_plan hplan, fun f hf => shows_of_mem hf, fun word hword => exists_bound_iff hword, ?_, ?_⟩
  · intro hfiles name hgiven
    by_contra hreserved
    rw [Bool.not_eq_false] at hreserved
    obtain ⟨f, hf, hname⟩ := (exists_bound_iff hreserved).mpr hgiven
    exact absurd hreserved (by rw [hfiles f hf name hname]; decide)
  · intro hgiven f hf name hname
    by_contra hreserved
    rw [Bool.not_eq_false] at hreserved
    exact absurd hreserved (by rw [hgiven name ((exists_bound_iff hreserved).mp ⟨f, hf, hname⟩)]; decide)

theorem shelfDocument_unreserved :
    ∃ plan, TypeScriptLibrary.plan (Compilation.plainPackage Compilation.shelfDocument .nodejs) = .ok plan ∧
      givenNames (Compilation.plainPackage Compilation.shelfDocument .nodejs) =
        ["Provider", "Host", "Port", "getPort", "config", "net"] ∧
      ∀ f ∈ sourceFiles (Compilation.plainPackage Compilation.shelfDocument .nodejs), ∀ name ∈ f.source.bound,
        Convention.typeScript.isReserved name = false := by
  obtain ⟨plan, hplan⟩ : ∃ plan, TypeScriptLibrary.plan (Compilation.plainPackage
      Compilation.shelfDocument .nodejs) =
      .ok plan := exists_ok_of_toBool (by decide +kernel)
  have hgiven : givenNames (Compilation.plainPackage Compilation.shelfDocument .nodejs) =
      ["Provider", "Host", "Port", "getPort", "config", "net"] := by decide +kernel
  refine ⟨plan, hplan, hgiven, (plan_unreserved_iff hplan).2.2.2.mpr ?_⟩
  rw [hgiven]
  decide

/-- A document with a data source whose token ends in a reserved word. -/
def deleteDocument : Document where
  name := "acme"
  provider := { dataSources := [("acme_delete", [("size", .scalar .int { computed := true })])] }
  dataSources := [("acme_delete", { token := "acme:index:delete" })]

/-- The library is planned, with a function that is named like the word. -/
theorem deleteDocument_reserved :
    (∃ warnings, deleteDocument.prepare default Compilation.plainSettings .nodejs =
        .ok ⟨Compilation.plainPackage deleteDocument .nodejs, warnings⟩) ∧
      (∃ plan, TypeScriptLibrary.plan (Compilation.plainPackage deleteDocument .nodejs) = .ok plan ∧
        ∀ f ∈ sourceFiles (Compilation.plainPackage deleteDocument .nodejs), f.planned ∈ plan.files) ∧
      (Compilation.plainPackage deleteDocument .nodejs).modules.map (fun m =>
          (subjects (Compilation.plainPackage deleteDocument .nodejs) m).map
            (fun s => (s.stem, s.declared))) =
        [[("delete", ["delete", "DeleteResult"])]] ∧
      ¬ ∀ f ∈ sourceFiles (Compilation.plainPackage deleteDocument .nodejs), ∀ name ∈ f.source.bound,
        Convention.typeScript.isReserved name = false := by
  refine ⟨Compilation.exists_prepared default deleteDocument (by decide) (by decide +kernel), ?_,
    by decide +kernel,
    fun h => ?_⟩
  · obtain ⟨plan, hplan⟩ : ∃ plan, TypeScriptLibrary.plan
        (Compilation.plainPackage deleteDocument .nodejs) = .ok plan :=
      exists_ok_of_toBool (by decide +kernel)
    exact ⟨plan, hplan, fun f hf => planned_mem_files hplan hf⟩
  · have hreserved : Convention.typeScript.isReserved "delete" = true := by decide
    obtain ⟨f, hf, hbound⟩ :=
      (exists_bound_iff (p := Compilation.plainPackage deleteDocument .nodejs) hreserved).mpr
      (by decide +kernel)
    exact absurd hreserved (by rw [h f hf "delete" hbound]; decide)

end ProviderSdk.TypeScriptLibrary
