import ProviderSdk.Proofs.Compile.Accounting

/-!
# Completed runs

A run fails only for want of a package name. All other runs come to their end: no collection lacks
its element, however deep it stands, so that whatever cannot be resolved is an error about an item.
Then a package can be taken exactly if no error was recorded.
-/

namespace ProviderSdk

inductive PairedField.StandsIn (fields : List PairedField) : PairedField → Prop where
  | top {f} (h : f ∈ fields) : StandsIn fields f
  | field {f inner} (outer : StandsIn fields f) (element : f.element = some (.field inner)) :
    StandsIn fields inner
  | object {f inner g} (outer : StandsIn fields f) (element : f.element = some (.object inner))
    (h : g ∈ inner) :
      StandsIn fields g

/-- All fields at all depths are paired with the elements that they have in the schema, and their
types are known or cannot be for a reason that is the item's. -/
def ElementsPaired (fields : List PairedField) : Prop :=
  ∀ f : PairedField, f.StandsIn fields →
    (f.element.isSome = f.schema.element?.isSome) ∧
      ∀ package owner position key, typeOf package owner position f ≠ .error (.elementMissing key)

/-- Pairing goes down to all depths. -/
theorem FieldsPaired.standsIn {fields : List PairedField} (h : FieldsPaired fields) {f : PairedField}
    (hf : f.StandsIn fields) : ∃ key override schema, f = pairField key override schema := by
  induction hf with
  | top hmem => exact h _ hmem
  | @field _ inner _ element ih =>
    obtain ⟨key, override, schema, rfl⟩ := ih
    cases schema with
    | scalar kind traits => cases element
    | collection kind e traits =>
      cases e with
      | field f =>
        cases element
        exact ⟨key, _, f, rfl⟩
      | object fields => cases element
  | @object _ inner g _ element hg ih =>
    obtain ⟨key, override, schema, rfl⟩ := ih
    cases schema with
    | scalar kind traits => cases element
    | collection kind e traits =>
      cases e with
      | field f => cases element
      | object fields =>
        cases element
        exact fieldsPaired_pairObject _ fields g hg

theorem FieldsPaired.elementsPaired {fields : List PairedField} (h : FieldsPaired fields) :
    ElementsPaired fields := by
  intro f hf
  obtain ⟨key, override, schema, rfl⟩ := h.standsIn hf
  constructor
  · cases schema <;> rfl
  · intro package owner position key' hmissing
    have hfatal := typeOf_notFatal package position schema key owner override _ hmissing
    cases hfatal

structure PairedProvider.ElementsPaired (p : PairedProvider) : Prop where
  config : ProviderSdk.ElementsPaired p.config
  resources : ∀ item ∈ p.resources, ProviderSdk.ElementsPaired item.fields
  dataSources : ∀ item ∈ p.dataSources, ProviderSdk.ElementsPaired item.fields

theorem PairedProvider.FieldsPaired.elementsPaired {p : PairedProvider} (h : p.FieldsPaired) :
    p.ElementsPaired where
  config := h.config.elementsPaired
  resources item hitem := (h.resources item hitem).elementsPaired
  dataSources item hitem := (h.dataSources item hitem).elementsPaired

namespace Compilation

/-- A run has come to its end: each phase has left its result, all elements are there, and taking
the package gives it or all errors that were recorded. -/
structure Complete (c : Compilation) : Prop where
  paired : ∃ paired, c.paired = some paired ∧ paired.ElementsPaired
  resolved : ∃ resolved, c.resolved = some resolved
  package : ∃ package, c.package = some package ∧ (c.errors = [] → c.takePackage = .ok package)
  errors : c.errors ≠ [] → c.takePackage = .error (.items ⟨c.errors.map (fun d => d.message)⟩)

theorem takePackage_of_errors {c : Compilation} (h : c.errors ≠ []) :
    c.takePackage = .error (.items ⟨c.errors.map (fun d => d.message)⟩) := by
  rw [takePackage, if_neg (by simpa using h)]

theorem takePackage_of_no_errors {c : Compilation} (h : c.errors = []) {package : Package}
    (hpackage : c.package = some package) : c.takePackage = .ok package := by
  rw [takePackage, if_pos (by simpa using h), hpackage]

theorem Complete.takePackage_eq_ok_iff {c : Compilation} (h : c.Complete) :
    (∃ package, c.takePackage = .ok package) ↔ c.errors = [] := by
  constructor
  · rintro ⟨package, htake⟩
    apply Classical.byContradiction
    intro herrors
    rw [h.errors herrors] at htake
    cases htake
  · intro herrors
    obtain ⟨package, _, htake⟩ := h.package
    exact ⟨package, htake herrors⟩

variable (disk : Disk) (document : Document) (options : RunOptions)

theorem packageName_start_eq_empty_iff : (start document options).packageName = "" ↔
    (options.package = none ∨ options.package = some "") ∧ document.name = "" := by
  unfold packageName start
  cases options.package with
  | none => simp
  | some name => by_cases hname : name = "" <;> simp [hname]

theorem finished_complete : (finished disk document options).Complete where
  paired := ⟨_, rfl, document.fieldsPaired_paired.elementsPaired⟩
  resolved := ⟨_, rfl⟩
  package := ⟨_, rfl, fun h => takePackage_of_no_errors h rfl⟩
  errors := takePackage_of_errors

/-- A run fails exactly if neither the options nor the document name the package. Else it comes to
its end, and a package can be taken exactly if no error was recorded. -/
theorem run_completes :
    ((∃ e, run disk document options = .error e) ↔
        (options.package = none ∨ options.package = some "") ∧ document.name = "") ∧
      (∀ e, run disk document options = .error e → e = .packageNameMissing) ∧
      ∀ c, run disk document options = .ok c →
        c.Complete ∧ ((∃ package, c.takePackage = .ok package) ↔ c.errors = []) := by
  rw [← packageName_start_eq_empty_iff]
  by_cases hname : (start document options).packageName = ""
  · have hrun : run disk document options = .error .packageNameMissing := by rw [run, if_pos hname]
    rw [hrun]
    refine ⟨⟨fun _ => hname, fun _ => ⟨_, rfl⟩⟩, ?_, ?_⟩
    · intro e h
      cases h
      rfl
    · intro c h
      cases h
  · rw [run_eq_finished disk document options hname]
    refine ⟨⟨?_, fun h => absurd h hname⟩, ?_, ?_⟩
    · rintro ⟨e, h⟩
      cases h
    · intro e h
      cases h
    · intro c h
      cases h
      have hcomplete := finished_complete disk document options
      exact ⟨hcomplete, hcomplete.takePackage_eq_ok_iff⟩

/-- A document without a name fails. One with a name comes to its end, though an item has no token;
so no package can be taken. -/
theorem hostDocument_completes :
    (∃ e, run default {} {} = .error e) ∧
      ∃ c, run default hostDocument {} = .ok c ∧ c.Complete ∧ c.errors.length = 1 ∧
        ¬ ∃ package, c.takePackage = .ok package := by
  obtain ⟨hfails, -, -⟩ := run_completes default {} {}
  obtain ⟨hnamed, -, hends⟩ := run_completes default hostDocument {}
  refine ⟨hfails.mpr ⟨.inl rfl, rfl⟩, ?_⟩
  cases hrun : run default hostDocument {} with
  | error e =>
    have hname := (hnamed.mp ⟨e, hrun⟩).2
    exact absurd hname (by decide)
  | ok c =>
    obtain ⟨hcomplete, htake⟩ := hends c hrun
    have hlength : c.errors.length = 1 := by
      have hname : (start hostDocument {}).packageName ≠ "" := by decide
      rw [run_eq_finished default hostDocument {} hname] at hrun
      cases hrun
      decide +kernel
    refine ⟨c, rfl, hcomplete, hlength, ?_⟩
    rw [htake]
    rintro hnone
    simp [hnone] at hlength

end Compilation

end ProviderSdk
