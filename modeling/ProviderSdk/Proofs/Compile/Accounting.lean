import Mathlib.Algebra.Order.Group.Multiset
import ProviderSdk.Compile.Run
import ProviderSdk.Proofs.Compile.Fate
import ProviderSdk.Proofs.Compile.Resolution

/-!
# Accounts of runs

No item disappears on its way through the phases of a run. An item of the schema about which
something is said becomes a member of the package or has an error, and never both; the others are
warned about. Nothing else is in the package or among the errors but what comes from the
configuration and from hand-written files.
-/

namespace ProviderSdk

/-- A member is made from an item: it has the raw name of the item, and it stands in the module of
the item's token. -/
inductive PairedItem.Makes (c : ResolveContext) (item : PairedItem) :
    ProviderPart → String → Member → Prop where
  | resource {r : Resource} (rawName : r.rawName = item.rawName) (own : r.isProvider = false)
      (token : c.itemToken item Text.pascalCase = .ok r.token) :
      PairedItem.Makes c item .resource r.token.module (.resource r)
  | dataSource {f : DataSource} (rawName : f.rawName = item.rawName)
      (token : c.itemToken item Text.camelCase = .ok f.token) :
      PairedItem.Makes c item .dataSource f.token.module (.dataSource f)

/-- What becomes of an item: a member that is made from it, or an error at its raw name. -/
inductive PairedItem.HasFate (c : ResolveContext) (part : ProviderPart) (item : PairedItem) :
    Fate → Prop where
  | placed {module member} (made : item.Makes c part module member) :
      PairedItem.HasFate c part item (.placed module member)
  | unresolved {message} :
      PairedItem.HasFate c part item (.refused (Diagnostic.itemError "resolve" c.package
        item.rawName message))
  | refused {message} :
      PairedItem.HasFate c part item (.refused (Diagnostic.itemError "assemble" c.package
        item.rawName message))

inductive ResultFate {α : Type} (package : String) (placement : α → Placement) :
    String × Except ResolveError α → Fate → Prop where
  | ok {item a fate} (h : (placement a).HasFate package fate) :
    ResultFate package placement (item, .ok a) fate
  | error {item e} :
      ResultFate package placement (item,
        .error e) (.refused (Diagnostic.itemError "resolve" package item e.message))

def resolveErrors (package : String) (failures : List (String × ResolveError)) : List Diagnostic :=
  failures.map (fun (item, e) => Diagnostic.itemError "resolve" package item e.message)

theorem mem_resolveErrors {package : String} {failures : List (String × ResolveError)} :
    ∀ d ∈ resolveErrors package failures, d.isError = true ∧ d.phase = "resolve" := by
  intro d hd
  obtain ⟨failure, _, rfl⟩ := List.mem_map.mp hd
  exact ⟨rfl, rfl⟩

theorem exists_fates_partitionResults {α : Type} {package : String} {placement : α → Placement}
    {results : List (String × Except ResolveError α)} {fates : List Fate}
    (h : List.Forall₂ (Placement.HasFate package) ((partitionResults results).1.map placement) fates) :
    ∃ all, List.Forall₂ (ResultFate package placement) results all ∧ Fate.members all = Fate.members fates ∧
      (Fate.errors all).Perm (resolveErrors package (partitionResults results).2 ++ Fate.errors fates) := by
  induction results generalizing fates with
  | nil =>
    cases h
    exact ⟨[], .nil, rfl, .refl _⟩
  | cons result rest ih =>
    obtain ⟨item, result⟩ := result
    cases result with
    | ok a =>
      cases h with | @cons _ fate _ fates hfate hrest =>
      obtain ⟨all, hall, hmembers, herrors⟩ := ih hrest
      refine ⟨fate :: all, .cons (.ok hfate) hall, ?_, ?_⟩
      · cases fate <;> simp [hmembers]
      · cases fate with
        | placed => exact herrors
        | refused d =>
          rw [Fate.errors_refused, Fate.errors_refused]
          exact (herrors.cons d).trans List.perm_middle.symm
    | error e =>
      obtain ⟨all, hall, hmembers, herrors⟩ := ih h
      exact ⟨_, .cons .error hall, hmembers, herrors.cons _⟩

variable {c : ResolveContext} {item : PairedItem} {fate : Fate}

theorem ResultFate.resource
    (h : ResultFate c.package (fun r => ⟨r.module, .resource r, r.rawName⟩)
    (item.rawName, (c.resource item).1) fate) :
    item.HasFate c .resource fate := by
  cases hresult : (c.resource item).1 with
  | error e =>
    rw [hresult] at h
    cases h
    exact .unresolved
  | ok r =>
    obtain ⟨hrawName, hown, htoken⟩ := ResolveContext.resource_ok hresult
    have hmodule : r.module = r.token.module := by simp [Resource.module, hown]
    rw [hresult] at h
    cases h with | ok h =>
    cases h with
    | placed =>
      rw [hmodule]
      exact .placed (.resource hrawName hown htoken)
    | refused =>
      rw [hrawName]
      exact .refused

theorem ResultFate.dataSource
    (h : ResultFate c.package (fun f => ⟨f.token.module, .dataSource f, f.rawName⟩)
      (item.rawName, (c.dataSource item).1) fate) :
    item.HasFate c .dataSource fate := by
  cases hresult : (c.dataSource item).1 with
  | error e =>
    rw [hresult] at h
    cases h
    exact .unresolved
  | ok f =>
    obtain ⟨hrawName, htoken⟩ := ResolveContext.dataSource_ok hresult
    rw [hresult] at h
    cases h with | ok h =>
    cases h with
    | placed => exact .placed (.dataSource hrawName htoken)
    | refused =>
      rw [hrawName]
      exact .refused

def PairedProvider.withoutItems (p : PairedProvider) : PairedProvider := { config := p.config }

def PairedProvider.resourceResults (p : PairedProvider) (c : ResolveContext) :
    List (String × Except ResolveError Resource) :=
  p.resources.map (fun item => (item.rawName, (c.resource item).1))

def PairedProvider.dataSourceResults (p : PairedProvider) (c : ResolveContext) :
    List (String × Except ResolveError DataSource) :=
  p.dataSources.map (fun item => (item.rawName, (c.dataSource item).1))

variable (p : PairedProvider) (c)

theorem placements_resolve : (p.resolve c).resolved.placements =
    (p.withoutItems.resolve c).resolved.placements ++
      ((partitionResults (p.resourceResults c)).1.map (fun r =>
        (⟨r.module, .resource r, r.rawName⟩ : Placement)) ++
        (partitionResults (p.dataSourceResults c)).1.map
          (fun f => (⟨f.token.module, .dataSource f, f.rawName⟩ : Placement))) := by
  simp [PairedProvider.resolve, PairedProvider.withoutItems, PairedProvider.resourceResults,
    PairedProvider.dataSourceResults, ResolvedProvider.placements, partitionResults, Function.comp_def]

theorem failures_resolve : (p.resolve c).failures = (p.withoutItems.resolve c).failures ++
    (partitionResults (p.resourceResults c)).2 ++ (partitionResults (p.dataSourceResults c)).2 := by
  simp [PairedProvider.resolve, PairedProvider.withoutItems, PairedProvider.resourceResults,
    PairedProvider.dataSourceResults, partitionResults, Function.comp_def]

theorem exists_fates_resolve {fates : List Fate}
    (h : List.Forall₂ (Placement.HasFate c.package) (p.resolve c).resolved.placements fates) :
    ∃ own resources dataSources,
      List.Forall₂ (Placement.HasFate c.package) (p.withoutItems.resolve c).resolved.placements own ∧
      List.Forall₂ (PairedItem.HasFate c .resource) p.resources resources ∧
      List.Forall₂ (PairedItem.HasFate c .dataSource) p.dataSources dataSources ∧
      Fate.members fates = Fate.members (own ++ resources ++ dataSources) ∧
      (resolveErrors c.package (p.resolve c).failures ++ Fate.errors fates).Perm
        (resolveErrors c.package (p.withoutItems.resolve c).failures ++
          Fate.errors (own ++ resources ++ dataSources)) := by
  rw [placements_resolve] at h
  obtain ⟨own, _, rfl, hown, hitems⟩ := exists_fates_append h
  obtain ⟨_, _, rfl, hresources, hdataSources⟩ := exists_fates_append hitems
  obtain ⟨resources, hresources, hresourceMembers, hresourceErrors⟩ :=
    exists_fates_partitionResults hresources
  obtain ⟨dataSources, hdataSources, hdataSourceMembers, hdataSourceErrors⟩ :=
    exists_fates_partitionResults hdataSources
  refine ⟨own, resources, dataSources, hown, ?_, ?_, ?_, ?_⟩
  · exact (List.forall₂_map_left_iff.mp hresources).imp (fun _ _ => ResultFate.resource)
  · exact (List.forall₂_map_left_iff.mp hdataSources).imp (fun _ _ => ResultFate.dataSource)
  · simp [hresourceMembers, hdataSourceMembers]
  · rw [failures_resolve]
    simp only [resolveErrors, List.map_append, Fate.errors_append]
    simp only [resolveErrors, ← Multiset.coe_eq_coe, ← Multiset.coe_add]
      at hresourceErrors hdataSourceErrors ⊢
    rw [hresourceErrors, hdataSourceErrors]
    ac_rfl

def Member.itemName? : Member → Option String
  | .resource r => if r.isProvider then none else some r.rawName
  | .dataSource f => some f.rawName
  | _ => none

def itemNames (members : List (String × Member)) : List String :=
  members.filterMap (fun (_, m) => m.itemName?)

def locations (errors : List Diagnostic) : List String := errors.filterMap (fun d => d.location)

@[simp] theorem itemNames_append (members others : List (String × Member)) :
    itemNames (members ++ others) = itemNames members ++ itemNames others := List.filterMap_append

@[simp] theorem locations_append (errors others : List Diagnostic) :
    locations (errors ++ others) = locations errors ++ locations others := List.filterMap_append

variable {p c}

/-- The names of the members made from items and the places of the errors about items are the names
of the items. -/
theorem names_perm {part : ProviderPart} {items : List PairedItem} {fates : List Fate}
    (h : List.Forall₂ (PairedItem.HasFate c part) items fates) :
    (itemNames (Fate.members fates) ++ locations (Fate.errors fates)).Perm
      (items.map (fun item => item.rawName)) := by
  induction h with
  | nil => exact .refl _
  | @cons item fate items fates hfate _ ih =>
    cases hfate with
    | placed made =>
      cases made with
      | resource rawName own => simpa [itemNames, Member.itemName?, rawName, own] using ih
      | dataSource rawName => simpa [itemNames, Member.itemName?, rawName] using ih
    | unresolved => exact List.perm_middle.trans (ih.cons item.rawName)
    | refused => exact List.perm_middle.trans (ih.cons item.rawName)

theorem itemNames_placements {package : String} {placements : List Placement} {fates : List Fate}
    (h : List.Forall₂ (Placement.HasFate package) placements fates)
    (hnone : ∀ p ∈ placements, p.member.itemName? = none) : itemNames (Fate.members fates) = [] := by
  induction h with
  | nil => rfl
  | @cons p fate placements fates hfate _ ih =>
    have hrest := ih (fun q hq => hnone q (List.mem_cons_of_mem _ hq))
    cases hfate with
    | placed => simpa [itemNames, hnone p List.mem_cons_self] using hrest
    | refused => exact hrest

theorem isProvider_withoutItems (p : PairedProvider) (c : ResolveContext) :
    ∀ r ∈ (p.withoutItems.resolve c).resolved.resources, r.isProvider = true := by
  intro r hr
  by_cases hconfig : p.config = []
  · simp [PairedProvider.withoutItems, PairedProvider.resolve, partitionResults, hconfig] at hr
  · cases hprovider : c.providerResource p.config with
    | error e =>
      simp [PairedProvider.withoutItems, PairedProvider.resolve, partitionResults, hconfig, hprovider] at hr
    | ok provider =>
      have hr : r = provider := by
        simpa [PairedProvider.withoutItems, PairedProvider.resolve, partitionResults, hconfig, hprovider]
          using hr
      rw [hr]
      exact ResolveContext.providerResource_ok hprovider

/-- Nothing of the configuration is made from an item. -/
theorem itemName?_withoutItems (p : PairedProvider) (c : ResolveContext) :
    ∀ placement ∈ (p.withoutItems.resolve c).resolved.placements, placement.member.itemName? = none := by
  intro placement hplacement
  obtain ⟨v, -, rfl⟩ | ⟨r, hr, rfl⟩ | ⟨f, hf, rfl⟩ := ResolvedProvider.cases_of_mem_placements hplacement
  · rfl
  · exact if_pos (isProvider_withoutItems p c r hr)
  · simp [PairedProvider.withoutItems, PairedProvider.resolve, partitionResults] at hf

/-- No hand-written file is made from an item. -/
theorem itemName?_overlayPlacements (d : Document) (overlaysDirectory : Path) (language : Option Language) :
    ∀ placement ∈ d.overlayPlacements overlaysDirectory language, placement.member.itemName? = none := by
  intro placement hplacement
  obtain ⟨file, hfile⟩ := Document.exists_overlay_of_mem_overlayPlacements hplacement
  rw [hfile]
  rfl

/-- The warnings among diagnostics about the items of a part, which is named by its title: one about
each name of the schema without an override, and one about each override without a name of the
schema. -/
structure ItemsReported (title : String) (schema : List (String × ObjectSchema))
    (overrides : List (String × ItemOverride)) (diagnostics : List Diagnostic) : Prop where
  notMapped : diagnostics.filter
      (fun d => isItemText title notMappedEnding d.message && d.phase == "normalize") =
    (unmappedNames schema overrides).map (fun rawName =>
      ⟨.warning, "normalize", title ++ " " ++ rawName ++ notMappedEnding, none⟩)
  notInSchema : diagnostics.filter
      (fun d => isItemText title notInSchemaEnding d.message && d.phase == "normalize") =
    (unknownNames schema overrides).map (fun (rawName, token) =>
      ⟨.warning, "normalize", title ++ " " ++ rawName ++ " (" ++ token ++ notInSchemaEnding, none⟩)

/-- Warnings are found among diagnostics by what their texts say. -/
theorem filter_isItemText {α : Type} {title ending : String} {about? : PairingWarning → Option α}
    {text : α → String} (hsome : ∀ w : PairingWarning, isItemText title ending w.message = (about? w).isSome)
    (htext : ∀ w a, about? w = some a → w.message = text a) (warnings : List PairingWarning) :
    (warnings.map (fun w => Diagnostic.warning "normalize" w.message)).filter
        (fun d => isItemText title ending d.message) =
      (warnings.filterMap about?).map (fun a => ⟨.warning, "normalize", text a, none⟩) := by
  induction warnings with
  | nil => rfl
  | cons w rest ih =>
    have hw : isItemText title ending (Diagnostic.warning "normalize" w.message).message =
        (about? w).isSome := hsome w
    cases habout : about? w with
    | none =>
      rw [habout] at hw
      rw [List.map_cons, List.filter_cons_of_neg (by simp [hw]), List.filterMap_cons_none habout, ih]
    | some a =>
      rw [habout] at hw
      rw [List.map_cons, List.filter_cons_of_pos (by simp [hw]), List.filterMap_cons_some habout,
        ih, List.map_cons, htext w a habout]
      rfl

theorem NamesAccounted.reported {part : ProviderPart} {schema : List (String × ObjectSchema)}
    {overrides : List (String × ItemOverride)} {items : List PairedItem} {warnings : List PairingWarning}
    {diagnostics : List Diagnostic} (h : NamesAccounted part schema overrides items warnings)
    (hdiagnostics : diagnostics.filter (fun d => d.phase == "normalize") =
      warnings.map (fun w => Diagnostic.warning "normalize" w.message)) :
    ItemsReported part.title schema overrides diagnostics where
  notMapped := by
    have htext (w : PairingWarning) (rawName : String) (hw : w.notMapped? part = some rawName) :
        w.message = part.title ++ " " ++ rawName ++ notMappedEnding := by
      cases w with
      | notMapped other name =>
        obtain ⟨rfl, rfl⟩ := Option.ite_some_none_eq_some.mp hw
        exact PairingWarning.message_eq _
      | _ => cases hw
    rw [← List.filter_filter, hdiagnostics,
      filter_isItemText PairingWarning.isItemText_notMapped htext, h.notMapped]
  notInSchema := by
    have htext (w : PairingWarning) (override : String × String) (hw : w.notInSchema? part = some override) :
        w.message = part.title ++ " " ++ override.1 ++ " (" ++ override.2 ++ notInSchemaEnding := by
      cases w with
      | notInSchema other name token =>
        obtain ⟨rfl, rfl⟩ := Option.ite_some_none_eq_some.mp hw
        simp only [PairingWarning.message_eq, String.append_assoc]
      | _ => cases hw
    rw [← List.filter_filter, hdiagnostics,
      filter_isItemText PairingWarning.isItemText_notInSchema htext, h.notInSchema]

/-- The fates of all that a run is to put into its package: the configuration variables with the
provider resource, the resources, the data sources and the hand-written files. -/
structure Fates where
  own : List Fate
  resources : List Fate
  dataSources : List Fate
  files : List Fate

def Fates.all (fates : Fates) : List Fate := fates.own ++ fates.resources ++ fates.dataSources ++ fates.files

namespace Compilation

variable (disk : Disk) (document : Document) (options : RunOptions)

def resolution : Resolution := document.paired.1.resolve ((start document options).resolveContext disk)

def ownResolution : Resolution :=
  document.paired.1.withoutItems.resolve ((start document options).resolveContext disk)

def assembled : Package × List Diagnostic :=
  document.assemble (start document options).packageName options.version
    options.overlaysDirectory options.language
    (resolution disk document options).resolved

/-- What is noticed by pairing, as the run reports it. -/
def pairingDiagnostics : List Diagnostic :=
  document.paired.2.map (fun w => Diagnostic.warning "normalize" w.message)

theorem resolve_eq {c : Compilation} {paired : PairedProvider} (hpaired : c.paired = some paired)
    (hfailures : ∀ failure ∈ (paired.resolve (c.resolveContext disk)).failures, failure.2.isFatal = false) :
    c.resolve disk = .ok {
      c.report ((paired.resolve (c.resolveContext disk)).diagnostics ++
        resolveErrors c.packageName (paired.resolve (c.resolveContext disk)).failures) with
      resolved := some (paired.resolve (c.resolveContext disk)).resolved } := by
  have hfind : (paired.resolve (c.resolveContext disk)).failures.find? (fun (_, e) => e.isFatal) = none := by
    rw [List.find?_eq_none]
    intro failure hfailure
    simpa using hfailures failure hfailure
  simp only [resolve, hpaired, hfind]
  rfl

def finished : Compilation where
  document := document
  options := options
  paired := some document.paired.1
  resolved := some (resolution disk document options).resolved
  package := some (assembled disk document options).1
  diagnostics := pairingDiagnostics document ++
    ((resolution disk document options).diagnostics ++
      resolveErrors (start document options).packageName (resolution disk document options).failures) ++
    (assembled disk document options).2

theorem run_eq_finished (hname : (start document options).packageName ≠ "") :
    run disk document options = .ok (finished disk document options) := by
  have hresolve := @resolve_eq disk (start document options).normalize _ rfl
    (document.fieldsPaired_paired.failures_notFatal _)
  rw [run, if_neg hname]
  -- Pairing cannot fail, so that a run is resolving and then assembling.
  change ((start document options).normalize.resolve disk >>= fun c => c.assemble >>= fun c => Except.ok c) =
    _
  rw [hresolve]
  rfl

/-- A run that does not fail has come to its end. -/
theorem eq_finished_of_run {c : Compilation} (h : run disk document options = .ok c) :
    c = finished disk document options := by
  by_cases hname : (start document options).packageName = ""
  · rw [run, if_pos hname] at h
    cases h
  · rw [run_eq_finished disk document options hname] at h
    exact (Except.ok.inj h).symm

/-- The package and the errors of a run are accounted for: its members and errors are those of the
fates of all that the run is to put into it, together with what could not be resolved of the
configuration. -/
structure Accounted (package : Package) (errors : List Diagnostic) (fates : Fates) : Prop where
  own : List.Forall₂ (Placement.HasFate (start document options).packageName)
    (ownResolution disk document options).resolved.placements fates.own
  resources : List.Forall₂ (PairedItem.HasFate ((start document options).resolveContext disk) .resource)
    document.paired.1.resources fates.resources
  dataSources : List.Forall₂ (PairedItem.HasFate ((start document options).resolveContext disk) .dataSource)
    document.paired.1.dataSources fates.dataSources
  files : List.Forall₂ (Placement.HasFate (start document options).packageName)
    (document.overlayPlacements options.overlaysDirectory options.language) fates.files
  members : package.placed.Perm (Fate.members fates.all)
  errors : errors.Perm
    (resolveErrors (start document options).packageName (ownResolution disk document options).failures ++
      Fate.errors fates.all)

variable {disk document options}

theorem Accounted.names {package : Package} {errors : List Diagnostic} {fates : Fates}
    (h : Accounted disk document options package errors fates) :
    (itemNames package.placed ++ locations (Fate.errors (fates.resources ++ fates.dataSources))).Perm
      (document.paired.1.resources.map (fun item => item.rawName) ++
        document.paired.1.dataSources.map (fun item => item.rawName)) := by
  have hown := itemNames_placements h.own (itemName?_withoutItems _ _)
  have hfiles := itemNames_placements h.files (itemName?_overlayPlacements _ _ _)
  have hresources := names_perm h.resources
  have hdataSources := names_perm h.dataSources
  have hmembers : (itemNames package.placed).Perm (itemNames (Fate.members fates.all)) :=
    h.members.filterMap _
  simp only [Fates.all, Fate.members_append, Fate.errors_append, itemNames_append,
    locations_append, hown, hfiles, List.nil_append, List.append_nil] at hmembers ⊢
  simp only [← Multiset.coe_eq_coe, ← Multiset.coe_add] at hmembers hresources hdataSources ⊢
  rw [hmembers, ← hresources, ← hdataSources]
  ac_rfl

variable (disk document options)

/-- The errors of a run are those of resolving and of assembling; pairing has none. -/
theorem errors_finished : (finished disk document options).errors =
    resolveErrors (start document options).packageName (resolution disk document options).failures ++
      (assembled disk document options).2.filter Diagnostic.isError := by
  have hpairing : (pairingDiagnostics document).filter Diagnostic.isError = [] := by
    simp [pairingDiagnostics, Diagnostic.warning, Diagnostic.isError]
  have hnotices : (resolution disk document options).diagnostics.filter Diagnostic.isError = [] := by
    rw [List.filter_eq_nil_iff]
    intro d hd
    simp [(PairedProvider.notices_resolve _ _ d hd).1]
  have hresolve (package : String) (failures : List (String × ResolveError)) :
      (resolveErrors package failures).filter Diagnostic.isError = resolveErrors package failures :=
    List.filter_eq_self.mpr (fun d hd => (mem_resolveErrors d hd).1)
  simp [errors, finished, hpairing, hnotices, hresolve]

/-- What a run reports of its first phase is what is noticed by pairing. -/
theorem pairingDiagnostics_finished :
    (finished disk document options).diagnostics.filter (fun d => d.phase == "normalize") =
      pairingDiagnostics document := by
  have hnotices : (resolution disk document options).diagnostics.filter
      (fun d => d.phase == "normalize") = [] := by
    rw [List.filter_eq_nil_iff]
    intro d hd
    simp [(PairedProvider.notices_resolve _ _ d hd).2]
  have hassemble : (assembled disk document options).2.filter (fun d => d.phase == "normalize") = [] := by
    obtain ⟨_, _, _, _, _, _, hphase⟩ := document.exists_fates_assemble (start document options).packageName
      options.version options.overlaysDirectory options.language (resolution disk document options).resolved
    rw [List.filter_eq_nil_iff]
    intro d hd
    simp [hphase d hd]
  have hresolve (package : String) (failures : List (String × ResolveError)) :
      (resolveErrors package failures).filter (fun d => d.phase == "normalize") = [] := by
    rw [List.filter_eq_nil_iff]
    intro d hd
    simp [(mem_resolveErrors d hd).2]
  have hpairing : (pairingDiagnostics document).filter (fun d => d.phase == "normalize") =
      pairingDiagnostics document := by
    simp [pairingDiagnostics, Diagnostic.warning]
  simp [finished, hpairing, hnotices, hassemble, hresolve]

theorem exists_fates_finished : ∃ fates, Accounted disk document options (assembled disk document options).1
    (finished disk document options).errors fates := by
  obtain ⟨made, files, hmade, hfiles, hmembers, herrors, _⟩ :=
    document.exists_fates_assemble (start document options).packageName options.version
      options.overlaysDirectory
      options.language (resolution disk document options).resolved
  obtain ⟨own, resources, dataSources, hown, hresources, hdataSources, hmadeMembers, hmadeErrors⟩ :=
    exists_fates_resolve ((start document options).resolveContext disk) document.paired.1 hmade
  refine ⟨⟨own, resources, dataSources, files⟩, hown, hresources, hdataSources, hfiles, ?_, ?_⟩
  · rw [Fates.all, Fate.members_append, ← hmadeMembers, ← Fate.members_append]
    exact hmembers
  · have hassembled : (assembled disk document options).2.filter Diagnostic.isError =
        Fate.errors (made ++ files) :=
      herrors
    rw [errors_finished, hassembled, Fates.all, Fate.errors_append, Fate.errors_append, ← List.append_assoc,
      ← List.append_assoc]
    exact hmadeErrors.append_right _

/-- Every member of the package is resolved, or it is a hand-written file. -/
theorem cases_of_mem_assembled {disk : Disk} {document : Document} {options : RunOptions} {module : String}
    {member : Member} (h : (module, member) ∈ (assembled disk document options).1.placed) :
    (∃ v ∈ (resolution disk document options).resolved.config, member = .variable v) ∨
      (∃ r ∈ (resolution disk document options).resolved.resources, member = .resource r) ∨
      (∃ f ∈ (resolution disk document options).resolved.dataSources, member = .dataSource f) ∨
      ∃ file, member = .overlay file := by
  obtain ⟨made, files, hmade, hfiles, hmembers, _⟩ :=
    document.exists_fates_assemble (start document options).packageName options.version
      options.overlaysDirectory
      options.language (resolution disk document options).resolved
  replace h := hmembers.mem_iff.mp h
  rw [Fate.members_append, List.mem_append] at h
  rcases h with h | h
  · obtain ⟨placement, hplacement, -, rfl⟩ := exists_placement_of_mem_members hmade h
    obtain ⟨v, hv, rfl⟩ | ⟨r, hr, rfl⟩ | ⟨f, hf, rfl⟩ := ResolvedProvider.cases_of_mem_placements hplacement
    · exact .inl ⟨v, hv, rfl⟩
    · exact .inr (.inl ⟨r, hr, rfl⟩)
    · exact .inr (.inr (.inl ⟨f, hf, rfl⟩))
  · obtain ⟨placement, hplacement, -, rfl⟩ := exists_placement_of_mem_members hfiles h
    exact .inr (.inr (.inr (Document.exists_overlay_of_mem_overlayPlacements hplacement)))

/-- No item disappears. A run with a package name ends with a package. Every name of a schema
without an override and every override without a name of a schema is warned about once, by a text of
its own; every other item is a member of the package in the module of its token, or there is one
error about it; and besides these there are only the members and errors of the configuration and of
hand-written files. So the names of the members made from items, and the places of the errors about
items, are the names that were paired. -/
theorem run_loses_no_item (hname : (start document options).packageName ≠ "") :
    ∃ c package fates, run disk document options = .ok c ∧ c.package = some package ∧
      c.diagnostics.filter (fun d => d.phase == "normalize") = pairingDiagnostics document ∧
      NamesAccounted .resource document.provider.resources document.resources document.paired.1.resources
        document.paired.2 ∧
      NamesAccounted .dataSource document.provider.dataSources document.dataSources
        document.paired.1.dataSources
        document.paired.2 ∧
      ItemsReported "Resource" document.provider.resources document.resources c.diagnostics ∧
      ItemsReported "Data source" document.provider.dataSources document.dataSources c.diagnostics ∧
      Accounted disk document options package c.errors fates ∧
      (itemNames package.placed ++ locations (Fate.errors (fates.resources ++ fates.dataSources))).Perm
        (document.paired.1.resources.map (fun item => item.rawName) ++
          document.paired.1.dataSources.map (fun item => item.rawName)) := by
  obtain ⟨fates, hfates⟩ := exists_fates_finished disk document options
  have hreported := pairingDiagnostics_finished disk document options
  exact ⟨finished disk document options, (assembled disk document options).1, fates,
    run_eq_finished disk document options hname, rfl, hreported, document.resources_accounted,
    document.dataSources_accounted, document.resources_accounted.reported hreported,
    document.dataSources_accounted.reported hreported, hfates, hfates.names⟩

/-- A resource and a data source of one name, the token of the latter being none; a resource about
which nothing is said; and an override that the schema does not have. -/
def hostDocument : Document where
  name := "acme"
  provider := {
    resources := [("acme_disk", []), ("acme_host", [("size", .scalar .int {})])]
    dataSources := [("acme_host", [("size", .scalar .int { computed := true })])] }
  resources := [("acme_host", { token := "acme:net:Host" }), ("acme_port", { token := "acme:net:Port" })]
  dataSources := [("acme_host", { token := "acme" })]

/-- The two hosts are the items of the document: each is a member of its package or has an error. -/
theorem hostDocument_accounted :
    (start hostDocument {}).packageName ≠ "" ∧
      unmappedNames hostDocument.provider.resources hostDocument.resources = ["acme_disk"] ∧
      unknownNames hostDocument.provider.resources hostDocument.resources = [("acme_port", "acme:net:Port")] ∧
      ∃ c package fates, run default hostDocument {} = .ok c ∧ c.package = some package ∧
        c.diagnostics.filter (fun d => d.phase == "normalize") = [
          ⟨.warning, "normalize", "Resource acme_disk not found in provider map; skipping", none⟩,
          ⟨.warning, "normalize",
            "Resource acme_port (acme:net:Port) wasn't found in the Terraform module; possible name mismatch?",
            none⟩] ∧
        Accounted default hostDocument {} package c.errors fates ∧
        (itemNames package.placed ++ locations (Fate.errors (fates.resources ++ fates.dataSources))).Perm
          ["acme_host", "acme_host"] := by
  have hname : (start hostDocument {}).packageName ≠ "" := by decide
  obtain ⟨c, package, fates, hrun, hpackage, hdiagnostics, _, _, _, _, haccounted, hnames⟩ :=
    run_loses_no_item default hostDocument {} hname
  have htexts : pairingDiagnostics hostDocument = [
      ⟨.warning, "normalize", "Resource acme_disk not found in provider map; skipping", none⟩,
      ⟨.warning, "normalize",
        "Resource acme_port (acme:net:Port) wasn't found in the Terraform module; possible name mismatch?",
        none⟩] := by
    decide +kernel
  exact ⟨hname, rfl, rfl, c, package, fates, hrun, hpackage, hdiagnostics.trans htexts, haccounted, hnames⟩

end Compilation

end ProviderSdk
