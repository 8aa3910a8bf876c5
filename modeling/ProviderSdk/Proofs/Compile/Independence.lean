import ProviderSdk.Proofs.Compile.Projection

/-!
# Independent items

All items of a document go through the same two phases, and what is noticed about them ends in one
list of diagnostics. Still no item can change what becomes of another: with one item more, a run
resolves what it resolved without it, in the same order, and what the item alone is resolved to
stands somewhere between. The diagnostics are those of the two runs, each in their order.
-/

namespace ProviderSdk

section Lists

variable {α β : Type}

/-- A list with further values at one place between its own. -/
def Inserted (list more result : List α) : Prop :=
  ∃ before after, list = before ++ after ∧ result = before ++ more ++ after

inductive Interleaved : List α → List α → List α → Prop where
  | nil : Interleaved [] [] []
  | left {first second result} (a : α) (h : Interleaved first second result) :
      Interleaved (a :: first) second (a :: result)
  | right {first second result} (a : α) (h : Interleaved first second result) :
      Interleaved first (a :: second) (a :: result)

namespace Inserted

variable {list more result : List α}

theorem of_nil (list : List α) : Inserted list [] list := ⟨list, [], by simp, by simp⟩

/-- What is made of a list part by part has what is made of the further values at one place. -/
theorem of_append {f : List α → List β} (hf : ∀ first second, f (first ++ second) = f first ++ f second)
    (h : Inserted list more result) : Inserted (f list) (f more) (f result) := by
  obtain ⟨before, after, rfl, rfl⟩ := h
  exact ⟨f before, f after, by rw [hf], by rw [hf, hf]⟩

theorem map (f : α → β) (h : Inserted list more result) : Inserted (list.map f) (more.map f) (result.map f) :=
  h.of_append (fun _ _ => List.map_append)

theorem flatMap (f : α → List β) (h : Inserted list more result) :
    Inserted (list.flatMap f) (more.flatMap f) (result.flatMap f) :=
  h.of_append (fun _ _ => List.flatMap_append)

theorem append_left (first : List α) (h : Inserted list more result) :
    Inserted (first ++ list) more (first ++ result) := by
  obtain ⟨before, after, rfl, rfl⟩ := h
  exact ⟨first ++ before, after, by simp, by simp⟩

theorem append_right (last : List α) (h : Inserted list more result) :
    Inserted (list ++ last) more (result ++ last) := by
  obtain ⟨before, after, rfl, rfl⟩ := h
  exact ⟨before, after ++ last, by simp, by simp⟩

theorem filter_eq {holds : α → Bool} (h : Inserted list more result) (hmore : ∀ a ∈ more, holds a = false) :
    result.filter holds = list.filter holds := by
  obtain ⟨before, after, rfl, rfl⟩ := h
  have hnone : more.filter holds = [] := List.filter_eq_nil_iff.mpr (fun a ha => by simp [hmore a ha])
  simp [hnone]

end Inserted

namespace Interleaved

variable {first second result first' second' result' : List α}

theorem of_left (list : List α) : Interleaved list [] list := by
  induction list with
  | nil => exact .nil
  | cons a rest ih => exact .left a ih

theorem of_right (list : List α) : Interleaved [] list list := by
  induction list with
  | nil => exact .nil
  | cons a rest ih => exact .right a ih

theorem append (h : Interleaved first second result) (h' : Interleaved first' second' result') :
    Interleaved (first ++ first') (second ++ second') (result ++ result') := by
  induction h with
  | nil => exact h'
  | left a _ ih => exact .left a ih
  | right a _ ih => exact .right a ih

theorem map (f : α → β) (h : Interleaved first second result) :
    Interleaved (first.map f) (second.map f) (result.map f) := by
  induction h with
  | nil => exact .nil
  | left a _ ih => exact .left (f a) ih
  | right a _ ih => exact .right (f a) ih

end Interleaved

theorem Inserted.interleaved {list more result : List α} (h : Inserted list more result) :
    Interleaved list more result := by
  obtain ⟨before, after, rfl, rfl⟩ := h
  simpa using ((Interleaved.of_left before).append (.of_right more)).append (.of_left after)

end Lists

def withOverride (rawName : String) (override : Option ItemOverride)
    (overrides : List (String × ItemOverride)) :
    List (String × ItemOverride) :=
  match override with
  | some o => Json.insertMember rawName o overrides
  | none => overrides

/-- A document with one resource or data source more. -/
def Document.withItem (d : Document) (kind : DocKind) (rawName : String) (fields : ObjectSchema)
    (override : Option ItemOverride) : Document :=
  match kind with
  | .resource =>
    { d with
      provider := { d.provider with resources := Json.insertMember rawName fields d.provider.resources }
      resources := withOverride rawName override d.resources }
  | .dataSource =>
    { d with
      provider := { d.provider with dataSources := Json.insertMember rawName fields d.provider.dataSources }
      dataSources := withOverride rawName override d.dataSources }

/-- The document that has nothing but a document's name and one resource or data source. -/
def Document.onlyItem (d : Document) (kind : DocKind) (rawName : String) (fields : ObjectSchema)
    (override : Option ItemOverride) : Document :=
  ({ name := d.name } : Document).withItem kind rawName fields override

/-- Neither the schema of a document nor what is said on top of it has a resource or data source. -/
def Document.Lacks (d : Document) : DocKind → String → Prop
  | .resource, rawName => rawName ∉ d.provider.resources.map Prod.fst ∧ rawName ∉ d.resources.map Prod.fst
  | .dataSource, rawName =>
    rawName ∉ d.provider.dataSources.map Prod.fst ∧ rawName ∉ d.dataSources.map Prod.fst

theorem lookup_withOverride {rawName : String} {override : Option ItemOverride}
    {overrides : List (String × ItemOverride)} (hlacks : rawName ∉ overrides.map Prod.fst) (name : String) :
    (withOverride rawName override overrides).lookup name =
      if name = rawName then override else overrides.lookup name := by
  cases override with
  | some o => exact Json.lookup_insertMember rawName o overrides name
  | none =>
    split
    · next h =>
      subst h
      exact Json.lookup_eq_none_iff_notMem.mpr hlacks
    · rfl

section Pairing

variable (part : ProviderPart)

theorem pairItems_append (first second : List (String × ObjectSchema))
    (overrides : List (String × ItemOverride)) :
    pairItems part (first ++ second) overrides =
      ((pairItems part first overrides).1 ++ (pairItems part second overrides).1,
        (pairItems part first overrides).2 ++ (pairItems part second overrides).2) := by
  induction first with
  | nil => rfl
  | cons m rest ih =>
    obtain ⟨rawName, fields⟩ := m
    simp only [pairItems, List.cons_append, List.foldr_cons] at ih ⊢
    rw [ih]
    cases overrides.lookup rawName <;> simp

/-- Only what is said about the items of the schema counts. -/
theorem pairItems_congr {schema : List (String × ObjectSchema)}
    {overrides overrides' : List (String × ItemOverride)}
    (h : ∀ name ∈ schema.map Prod.fst, overrides.lookup name = overrides'.lookup name) :
    pairItems part schema overrides = pairItems part schema overrides' := by
  induction schema with
  | nil => rfl
  | cons m rest ih =>
    obtain ⟨rawName, fields⟩ := m
    have hrest := ih (fun name hname => h name (List.mem_cons_of_mem _ hname))
    simp only [pairItems, List.foldr_cons] at hrest ⊢
    rw [hrest, h rawName List.mem_cons_self]

variable {schema : List (String × ObjectSchema)} {overrides : List (String × ItemOverride)} {rawName : String}
  (hschema : rawName ∉ schema.map Prod.fst) (hoverrides : rawName ∉ overrides.map Prod.fst)
    (fields : ObjectSchema)
  (override : Option ItemOverride)

include hoverrides

include hschema in
/-- With one item more, what is paired and noticed without it stands around what is paired and
noticed of it alone. -/
theorem inserted_pairItems :
    Inserted (pairItems part schema overrides).1
        (pairItems part [(rawName, fields)] (withOverride rawName override [])).1
        (pairItems part (Json.insertMember rawName fields schema)
          (withOverride rawName override overrides)).1 ∧
      Inserted (pairItems part schema overrides).2
        (pairItems part [(rawName, fields)] (withOverride rawName override [])).2
        (pairItems part (Json.insertMember rawName fields schema)
          (withOverride rawName override overrides)).2 := by
  obtain ⟨before, after, rfl, hinsert⟩ := Json.exists_insertMember hschema fields
  have hothers (others : List (String × ObjectSchema)) (hnone : rawName ∉ others.map Prod.fst) :
      pairItems part others (withOverride rawName override overrides) = pairItems part others overrides := by
    refine pairItems_congr part (fun name hname => ?_)
    rw [lookup_withOverride hoverrides, if_neg (ne_of_mem_of_not_mem hname hnone)]
  have halone : pairItems part [(rawName, fields)] (withOverride rawName override overrides) =
      pairItems part [(rawName, fields)] (withOverride rawName override []) := by
    refine pairItems_congr part (fun name hname => ?_)
    have hname : name = rawName := by simpa using hname
    rw [lookup_withOverride hoverrides, lookup_withOverride (by simp), if_pos hname, if_pos hname]
  simp only [List.map_append, List.mem_append, not_or] at hschema
  rw [hinsert, List.append_cons, pairItems_append, pairItems_append, pairItems_append, halone,
    hothers before hschema.1, hothers after hschema.2]
  exact ⟨⟨_, _, rfl, by simp⟩, ⟨_, _, rfl, by simp⟩⟩

/-- An item of the schema more changes nothing about the overrides without one. -/
theorem unmatchedItems_withOverride :
    unmatchedItems part (Json.insertMember rawName fields schema) (withOverride rawName override overrides) =
      unmatchedItems part schema overrides := by
  have hlookup (name : String) (hname : name ≠ rawName) :
      (Json.insertMember rawName fields schema).lookup name = schema.lookup name := by
    rw [Json.lookup_insertMember, if_neg hname]
  have hothers (others : List (String × ItemOverride)) (hnone : rawName ∉ others.map Prod.fst) :
      unmatchedItems part (Json.insertMember rawName fields schema) others =
        unmatchedItems part schema others := by
    unfold unmatchedItems
    refine congrArg _ (List.filter_congr (fun m hm => ?_))
    have hname : m.1 ≠ rawName := ne_of_mem_of_not_mem (List.mem_map_of_mem hm) hnone
    simp only [hlookup m.1 hname]
  cases override with
  | none => exact hothers overrides hoverrides
  | some o =>
    obtain ⟨before, after, rfl, hinsert⟩ := Json.exists_insertMember hoverrides o
    simp only [List.map_append, List.mem_append, not_or] at hoverrides
    have happend (schema : List (String × ObjectSchema)) (front back : List (String × ItemOverride)) :
        unmatchedItems part schema (front ++ back) =
          unmatchedItems part schema front ++ unmatchedItems part schema back := by
      simp only [unmatchedItems, List.filter_append, List.map_append]
    have hmatched : unmatchedItems part (Json.insertMember rawName fields schema) ((rawName, o) :: after) =
        unmatchedItems part (Json.insertMember rawName fields schema) after := by
      have hown : ((Json.insertMember rawName fields schema).lookup rawName).isNone = false := by
        rw [Json.lookup_insertMember, if_pos rfl]
        rfl
      simp only [unmatchedItems, List.filter_cons, hown, Bool.false_eq_true, if_false]
    rw [withOverride, hinsert, happend, happend, hmatched, hothers before hoverrides.1,
      hothers after hoverrides.2]

end Pairing

/-- What is paired of a document with one item more, beside what is paired without it and of the
item alone. -/
structure PairedProvider.ExtendedBy (p alone p' : PairedProvider) : Prop where
  config : p'.config = p.config
  noConfig : alone.config = []
  resources : Inserted p.resources alone.resources p'.resources
  dataSources : Inserted p.dataSources alone.dataSources p'.dataSources

section Documents

variable {d : Document} {kind : DocKind} {rawName : String} (h : d.Lacks kind rawName) (fields : ObjectSchema)
  (override : Option ItemOverride)

include h

theorem Document.paired_withItem :
    d.paired.1.ExtendedBy (d.onlyItem kind rawName fields override).paired.1
      (d.withItem kind rawName fields override).paired.1 := by
  cases kind with
  | resource => exact ⟨rfl, rfl, (inserted_pairItems .resource h.1 h.2 fields override).1, .of_nil _⟩
  | dataSource => exact ⟨rfl, rfl, .of_nil _, (inserted_pairItems .dataSource h.1 h.2 fields override).1⟩

theorem Document.pairingWarnings_withItem :
    Inserted d.paired.2 (d.onlyItem kind rawName fields override).paired.2
      (d.withItem kind rawName fields override).paired.2 := by
  have hfresh : rawName ∉ ([] : List (String × ItemOverride)).map Prod.fst := by simp
  have hown (part : ProviderPart) :
      unmatchedItems part [(rawName, fields)] (withOverride rawName override []) = [] := by
    have hinserted : unmatchedItems part (Json.insertMember rawName fields [])
        (withOverride rawName override []) =
        unmatchedItems part [] [] := unmatchedItems_withOverride part hfresh fields override
    exact hinserted
  cases kind with
  | resource =>
    have halone : (d.onlyItem .resource rawName fields override).paired.2 =
        (pairItems .resource [(rawName, fields)] (withOverride rawName override [])).2 := by
      change [] ++ (pairItems .resource [(rawName, fields)] (withOverride rawName override [])).2 ++ [] ++
        unmatchedItems .resource [(rawName, fields)] (withOverride rawName override []) ++ [] = _
      rw [hown, List.nil_append, List.append_nil, List.append_nil, List.append_nil]
    have hpaired := (inserted_pairItems .resource h.1 h.2 fields override).2
    rw [halone]
    simp only [Document.paired, Document.withItem, unmatchedItems_withOverride .resource h.2]
    exact (((hpaired.append_left _).append_right _).append_right _).append_right _
  | dataSource =>
    have halone : (d.onlyItem .dataSource rawName fields override).paired.2 =
        (pairItems .dataSource [(rawName, fields)] (withOverride rawName override [])).2 := by
      change [] ++ [] ++
        (pairItems .dataSource [(rawName, fields)] (withOverride rawName override [])).2 ++ [] ++
        unmatchedItems .dataSource [(rawName, fields)] (withOverride rawName override []) = _
      rw [hown, List.nil_append, List.nil_append, List.append_nil, List.append_nil]
    have hpaired := (inserted_pairItems .dataSource h.1 h.2 fields override).2
    rw [halone]
    simp only [Document.paired, Document.withItem, unmatchedItems_withOverride .dataSource h.2]
    exact ((hpaired.append_left _).append_right _).append_right _

end Documents

theorem partitionResults_append {α : Type} (first second : List (String × Except ResolveError α)) :
    partitionResults (first ++ second) =
      ((partitionResults first).1 ++ (partitionResults second).1,
        (partitionResults first).2 ++ (partitionResults second).2) := by
  induction first with
  | nil => rfl
  | cons result rest ih =>
    obtain ⟨item, result⟩ := result
    simp only [partitionResults, List.cons_append, List.foldr_cons] at ih ⊢
    rw [ih]
    cases result <;> rfl

section Resolving

variable {p alone p' : PairedProvider} (h : p.ExtendedBy alone p') (c : ResolveContext)

include h

theorem PairedProvider.ExtendedBy.resourceResults :
    Inserted (p.resourceResults c) (alone.resourceResults c) (p'.resourceResults c) := h.resources.map _

theorem PairedProvider.ExtendedBy.dataSourceResults :
    Inserted (p.dataSourceResults c) (alone.dataSourceResults c) (p'.dataSourceResults c) :=
      h.dataSources.map _

theorem PairedProvider.ExtendedBy.resolved_config :
    (p'.resolve c).resolved.config = (p.resolve c).resolved.config := by
  simp only [PairedProvider.resolve, h.config]

theorem PairedProvider.ExtendedBy.resolved_resources :
    Inserted (p.resolve c).resolved.resources (alone.resolve c).resolved.resources
      (p'.resolve c).resolved.resources := by
  have hresults := (h.resourceResults c).of_append (f := fun results => (partitionResults results).1)
    (fun _ _ => by rw [partitionResults_append])
  rw [ProviderSdk.resolved_resources, ProviderSdk.resolved_resources, ProviderSdk.resolved_resources,
    h.config, h.noConfig]
  exact hresults.append_left _

theorem PairedProvider.ExtendedBy.resolved_dataSources :
    Inserted (p.resolve c).resolved.dataSources (alone.resolve c).resolved.dataSources
      (p'.resolve c).resolved.dataSources := by
  rw [ProviderSdk.resolved_dataSources, ProviderSdk.resolved_dataSources, ProviderSdk.resolved_dataSources]
  exact (h.dataSourceResults c).of_append (f := fun results => (partitionResults results).1)
    (fun _ _ => by rw [partitionResults_append])

/-- What is noticed about pages is noticed about one item after the other. -/
theorem PairedProvider.ExtendedBy.diagnostics :
    Interleaved (p.resolve c).diagnostics (alone.resolve c).diagnostics (p'.resolve c).diagnostics := by
  simp only [PairedProvider.resolve, List.flatMap_map]
  exact (h.resources.flatMap _).interleaved.append (h.dataSources.flatMap _).interleaved

/-- The items alone cannot fail for the configuration, which they do not have. -/
theorem PairedProvider.ExtendedBy.failures :
    Interleaved (p.resolve c).failures (alone.resolve c).failures (p'.resolve c).failures := by
  have hresources := (h.resourceResults c).of_append (f := fun results => (partitionResults results).2)
    (fun _ _ => by rw [partitionResults_append])
  have hdataSources := (h.dataSourceResults c).of_append (f := fun results => (partitionResults results).2)
    (fun _ _ => by rw [partitionResults_append])
  have hown : (p'.withoutItems.resolve c).failures = (p.withoutItems.resolve c).failures := by
    simp only [PairedProvider.withoutItems, h.config]
  have hnone : (alone.withoutItems.resolve c).failures = [] := by
    simp only [PairedProvider.withoutItems, h.noConfig]
    rfl
  rw [failures_resolve, failures_resolve c p', failures_resolve c alone, hown, hnone, List.nil_append]
  exact (hresources.append_left _).interleaved.append hdataSources.interleaved

end Resolving

/-- Nothing is resolved but one resource or data source of a raw name, if that could be resolved. -/
def ResolvedProvider.HasOnly (resolved : ResolvedProvider) : DocKind → String → Prop
  | .resource, rawName => ∃ made : Option Resource, resolved = { resources := made.toList } ∧
      ∀ r ∈ made, r.rawName = rawName ∧ r.isProvider = false
  | .dataSource, rawName => ∃ made : Option DataSource, resolved = { dataSources := made.toList } ∧
      ∀ f ∈ made, f.rawName = rawName

theorem exists_pairItems_singleton (part : ProviderPart) (rawName : String) (fields : ObjectSchema)
    (overrides : List (String × ItemOverride)) :
    ∃ paired : Option PairedItem, (pairItems part [(rawName, fields)] overrides).1 = paired.toList ∧
      ∀ item ∈ paired, item.rawName = rawName := by
  cases hlookup : overrides.lookup rawName with
  | none => exact ⟨none, by simp [pairItems, hlookup], by simp⟩
  | some o => exact ⟨some _, by simp only [pairItems, List.foldr_cons, List.foldr_nil, hlookup]; rfl, by simp⟩

theorem resolveProperties_nil (package owner : String) (position : Position) (page : Option DocPage) :
    resolveProperties package owner position page [] = .ok [] := rfl

theorem Document.hasOnly_onlyItem (d : Document) (kind : DocKind) (rawName : String) (fields : ObjectSchema)
    (override : Option ItemOverride) (c : ResolveContext) :
    ((d.onlyItem kind rawName fields override).paired.1.resolve c).resolved.HasOnly kind rawName := by
  cases kind with
  | resource =>
    obtain ⟨paired, hpaired, hname⟩ :=
      exists_pairItems_singleton .resource rawName fields (withOverride rawName override [])
    have halone : (d.onlyItem .resource rawName fields override).paired.1 =
        { resources := paired.toList } := by
      rw [← hpaired]
      rfl
    rw [halone]
    cases paired with
    | none => exact ⟨none, rfl, by simp⟩
    | some item =>
      cases hresult : (c.resource item).1 with
      | error e => exact ⟨none, by simp [PairedProvider.resolve, partitionResults, resolveProperties_nil,
        hresult], by simp⟩
      | ok r =>
        obtain ⟨hrawName, hown, -⟩ := ResolveContext.resource_ok hresult
        refine ⟨some r,
          by simp [PairedProvider.resolve, partitionResults, resolveProperties_nil, hresult], ?_⟩
        rintro _ ⟨⟩
        exact ⟨hrawName.trans (hname item rfl), hown⟩
  | dataSource =>
    obtain ⟨paired, hpaired, hname⟩ :=
      exists_pairItems_singleton .dataSource rawName fields (withOverride rawName override [])
    have halone : (d.onlyItem .dataSource rawName fields override).paired.1 =
        { dataSources := paired.toList } := by
      rw [← hpaired]
      rfl
    rw [halone]
    cases paired with
    | none => exact ⟨none, rfl, by simp⟩
    | some item =>
      cases hresult : (c.dataSource item).1 with
      | error e => exact ⟨none, by simp [PairedProvider.resolve, partitionResults, resolveProperties_nil,
        hresult], by simp⟩
      | ok f =>
        refine ⟨some f,
          by simp [PairedProvider.resolve, partitionResults, resolveProperties_nil, hresult], ?_⟩
        rintro _ ⟨⟩
        exact (ResolveContext.dataSource_ok hresult).1.trans (hname item rfl)

theorem ResolvedProvider.HasOnly.isProvider {resolved : ResolvedProvider} {kind : DocKind} {rawName : String}
    (h : resolved.HasOnly kind rawName) : ∀ r ∈ resolved.resources, r.isProvider = false := by
  cases kind with
  | resource =>
    obtain ⟨made, rfl, hown⟩ := h
    intro r hr
    exact (hown r (by simpa using hr)).2
  | dataSource =>
    obtain ⟨made, rfl, -⟩ := h
    simp

namespace Compilation

variable (disk : Disk) (document : Document) (options : RunOptions)

/-- Runs the phases up to the one that resolves the items. -/
def runResolved : Except CompileError Compilation :=
  let c := start document options
  if c.packageName = "" then .error .packageNameMissing
    else [Phase.normalize, Phase.resolve].foldlM (runPhase disk) c

theorem run_eq_runResolved_bind :
    run disk document options = runResolved disk document options >>= Compilation.assemble := by
  unfold run runResolved
  dsimp only
  split
  · rfl
  · change ((start document options).normalize.resolve disk >>=
      fun c => c.assemble >>= fun c => Except.ok c) =
      ((start document options).normalize.resolve disk >>= fun c => Except.ok c) >>= Compilation.assemble
    cases (start document options).normalize.resolve disk with
    | error e => rfl
    | ok c =>
      change (c.assemble >>= fun c => Except.ok c) = c.assemble
      cases c.assemble <;> rfl

def reported : List Diagnostic :=
  pairingDiagnostics document ++ ((resolution disk document options).diagnostics ++
    resolveErrors (start document options).packageName (resolution disk document options).failures)

theorem runResolved_eq (hname : (start document options).packageName ≠ "") :
    runResolved disk document options = .ok { start document options with
      paired := some document.paired.1
      resolved := some (resolution disk document options).resolved
      diagnostics := reported disk document options } := by
  have hresolve := @resolve_eq disk (start document options).normalize _ rfl
    (document.fieldsPaired_paired.failures_notFatal _)
  rw [runResolved, if_neg hname]
  change ((start document options).normalize.resolve disk >>= fun c => Except.ok c) = _
  rw [hresolve]
  rfl

/-- What a run has resolved with one item more, beside what it has resolved without it and of the
item alone: the configuration, the provider resource and all other items are as they were, in their
order, and the diagnostics are those of the two others. -/
structure ExtendedBy (kind : DocKind) (rawName : String) (c alone c' : Compilation) : Prop where
  resolved : ∃ r only r', c.resolved = some r ∧ alone.resolved = some only ∧ c'.resolved = some r' ∧
    only.HasOnly kind rawName ∧ r'.config = r.config ∧
    r'.resources.filter (fun x => x.isProvider) = r.resources.filter (fun x => x.isProvider) ∧
    Inserted r.resources only.resources r'.resources ∧ Inserted r.dataSources only.dataSources r'.dataSources
  diagnostics : Interleaved c.diagnostics alone.diagnostics c'.diagnostics

variable {document}

theorem packageName_withItem (kind : DocKind) (rawName : String) (fields : ObjectSchema)
    (override : Option ItemOverride) :
    (start (document.withItem kind rawName fields override) options).packageName =
      (start document options).packageName := by
  cases kind <;> rfl

/-- Items are resolved independently. -/
theorem runResolved_withItem (kind : DocKind) (rawName : String) (fields : ObjectSchema)
    (override : Option ItemOverride) (hname : (start document options).packageName ≠ "")
    (hlacks : document.Lacks kind rawName) :
    ∃ c alone c', runResolved disk document options = .ok c ∧
      runResolved disk (document.onlyItem kind rawName fields override) options = .ok alone ∧
      runResolved disk (document.withItem kind rawName fields override) options = .ok c' ∧
      run disk (document.withItem kind rawName fields override) options = c'.assemble ∧
      c.ExtendedBy kind rawName alone c' := by
  have hpackage : (start (document.withItem kind rawName fields override) options).packageName =
      (start document options).packageName := packageName_withItem options kind rawName fields override
  have hpackageAlone : (start (document.onlyItem kind rawName fields override) options).packageName =
      (start document options).packageName := packageName_withItem options kind rawName fields override
  have hcontext : (start (document.withItem kind rawName fields override) options).resolveContext disk =
      (start document options).resolveContext disk := by cases kind <;> rfl
  have hcontextAlone : (start (document.onlyItem kind rawName fields override) options).resolveContext disk =
      (start document options).resolveContext disk := by cases kind <;> rfl
  have hpaired := Document.paired_withItem hlacks fields override
  have hwarnings := Document.pairingWarnings_withItem hlacks fields override
  have hrun :=
    runResolved_eq disk (document.withItem kind rawName fields override) options (by rwa [hpackage])
  refine ⟨_, _, _, runResolved_eq disk document options hname,
    runResolved_eq disk (document.onlyItem kind rawName fields override) options
      (by rwa [hpackageAlone]), hrun, ?_, ?_⟩
  · rw [run_eq_runResolved_bind, hrun]
    rfl
  · have honly := document.hasOnly_onlyItem kind rawName fields override
      ((start (document.onlyItem kind rawName fields override) options).resolveContext disk)
    constructor
    · refine ⟨_, _, _, rfl, rfl, rfl, honly, ?_⟩
      simp only [resolution, hcontext, hcontextAlone] at honly ⊢
      have hresources := hpaired.resolved_resources ((start document options).resolveContext disk)
      exact ⟨hpaired.resolved_config _, hresources.filter_eq honly.isProvider, hresources,
        hpaired.resolved_dataSources _⟩
    · simp only [reported, resolution, hcontext, hcontextAlone, hpackage, hpackageAlone,
        pairingDiagnostics, resolveErrors]
      exact (hwarnings.map _).interleaved.append ((hpaired.diagnostics _).append ((hpaired.failures _).map _))

/-- A resource is added that cannot be resolved, and about which something is said that its schema
does not have. Both are reported; nothing else changes. -/
theorem hostDocument_withItem :
    (start hostDocument {}).packageName ≠ "" ∧ hostDocument.Lacks .resource "acme_file" ∧
      ∃ c alone c', runResolved default hostDocument {} = .ok c ∧
        runResolved default
          (hostDocument.withItem .resource "acme_file" [("path", .scalar .string {})]
            (some { token := "acme", fields := [("mode", {})] })) {} = .ok c' ∧
        c.ExtendedBy .resource "acme_file" alone c' ∧ alone.diagnostics.length = 2 := by
  have hname : (start hostDocument {}).packageName ≠ "" := by decide
  have hlacks : hostDocument.Lacks .resource "acme_file" := ⟨by decide, by decide⟩
  obtain ⟨c, alone, c', hc, halone, hc', -, hextended⟩ :=
    runResolved_withItem default {} .resource "acme_file"
    [("path", .scalar .string {})] (some { token := "acme", fields := [("mode", {})] }) hname hlacks
  refine ⟨hname, hlacks, c, alone, c', hc, hc', hextended, ?_⟩
  rw [runResolved_eq _ _ _ (by decide)] at halone
  cases halone
  decide +kernel

end Compilation

end ProviderSdk
