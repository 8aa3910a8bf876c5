import ProviderSdk.Proofs.Compile.Pairing
import ProviderSdk.Compile.Resolution
import ProviderSdk.Proofs.Results

/-!
# Resolved items

Resolving never fails in a way that is not the item's: pairing gives every collection its element. A
resolved item has the raw name and the token of the item that it was made from.
-/

namespace ProviderSdk

abbrev NotFatal {α : Type} (r : Except ResolveError α) : Prop := FailsWith (fun e => e.isFatal = false) r

theorem resolveToken_notFatal (text : String) : NotFatal (resolveToken text) := by
  intro e h
  unfold resolveToken at h
  split at h <;> cases h
  rfl

theorem localToken_notFatal (package text : String) : NotFatal (localToken package text) := by
  refine FailsWith.bind (resolveToken_notFatal text) (fun t _ => ?_)
  intro e h
  split at h <;> cases h
  rfl

theorem overriddenType?_notFatal {package : String} {override : Option FieldOverride} {position : Position}
    {type : Except ResolveError TypeRef} (h : overriddenType? package override position = some type) :
    NotFatal type := by
  unfold overriddenType? at h
  split at h
  · cases h
    refine FailsWith.bind (localToken_notFatal _ _) (fun t _ => ?_)
    cases position with
    | input =>
      have haltTypes := FailsWith.mapM (fun text (_ : text ∈ (override.map (fun o => o.altTypes)).getD []) =>
        localToken_notFatal package text)
      exact FailsWith.bind haltTypes (fun _ _ => FailsWith.pure _)
    | output => exact FailsWith.ok _
  · split at h
    · cases h
      exact FailsWith.ok _
    · cases h

/-- The properties of an object type are those of the fields that may stand in it. -/
theorem nestedProperties_eq {package owner : String} {position : Position} (fields : List PairedField) :
    nestedProperties package owner position fields = resolveProperties package owner position none
      (fields.filter (fun f => decide (position = .output ∨ f.schema.isInput = true))) := by
  induction fields with
  | nil => rfl
  | cons f rest ih =>
    rw [nestedProperties, List.filter_cons]
    split
    · next h =>
      rw [if_pos (by simpa using h), resolveProperties, List.mapM_cons, ih]
      simp [resolveProperty, resolveProperties]
    · next h => rw [if_neg (by simpa using h), ih]

theorem nestedProperties_notFatal {package : String} {position : Position} {fields : ObjectSchema}
    (h : ∀ key f, (key, f) ∈ fields → ∀ owner override,
      NotFatal (typeOf package owner position (pairField key override f)))
    (owner : String) (overrides : OverrideLookup) :
    NotFatal (nestedProperties package owner position (pairObject overrides fields)) := by
  rw [nestedProperties_eq]
  refine FailsWith.mapM (fun f hf => ?_)
  obtain ⟨key, schema, hmem, _, rfl⟩ := mem_pairObject.mp (List.mem_filter.mp hf).1
  exact FailsWith.bind (h key schema hmem owner _) (fun _ _ => FailsWith.pure _)

/-- The type of a paired field is known, or the error is the item's: no collection lacks its element. -/
theorem typeOf_notFatal (package : String) (position : Position) (f : FieldSchema) (key owner : String)
    (override : Option FieldOverride) :
    NotFatal (typeOf package owner position (pairField key override f)) := by
  induction f generalizing key owner override with
  | scalar kind traits =>
    rw [pairField, typeOf]
    split
    · exact overriddenType?_notFatal ‹_›
    · exact FailsWith.ok _
  | field kind f traits ih =>
    rw [pairField, typeOf]
    split
    · exact overriddenType?_notFatal ‹_›
    · refine FailsWith.bind ?_ (fun type _ => ?_)
      · rw [pairElement, elementType]
        exact ih key owner _
      · cases kind <;> exact FailsWith.pure _
  | object kind fields traits ih =>
    rw [pairField, typeOf]
    split
    · exact overriddenType?_notFatal ‹_›
    · refine FailsWith.bind ?_ (fun type _ => ?_)
      · rw [pairElement, elementType]
        refine FailsWith.bind ?_ (fun _ _ => FailsWith.pure _)
        exact nestedProperties_notFatal (fun key f hf owner override => ih key f hf key owner override) _ _
      · cases kind <;> exact FailsWith.pure _

def FieldsPaired (fields : List PairedField) : Prop :=
  ∀ f ∈ fields, ∃ key override schema, f = pairField key override schema

theorem fieldsPaired_pairObject (overrides : OverrideLookup) (fields : ObjectSchema) :
    FieldsPaired (pairObject overrides fields) := by
  intro f hf
  obtain ⟨key, schema, _, _, hpaired⟩ := mem_pairObject.mp hf
  exact ⟨key, overrides key, schema, hpaired⟩

theorem FieldsPaired.filter {fields : List PairedField} (h : FieldsPaired fields) (p : PairedField → Bool) :
    FieldsPaired (fields.filter p) :=
  fun f hf => h f (List.mem_filter.mp hf).1

theorem resolveProperties_notFatal {fields : List PairedField} (h : FieldsPaired fields)
    (package owner : String) (position : Position) (page : Option DocPage) :
    NotFatal (resolveProperties package owner position page fields) := by
  refine FailsWith.mapM (fun f hf => ?_)
  obtain ⟨key, override, schema, rfl⟩ := h f hf
  exact FailsWith.bind (typeOf_notFatal package position schema key owner override)
    (fun _ _ => FailsWith.pure _)

namespace ResolveContext

variable (c : ResolveContext) (item : PairedItem)

theorem itemToken_notFatal (named : String → String) : NotFatal (c.itemToken item named) := by
  unfold itemToken
  split
  · exact resolveToken_notFatal item.token
  · split
    · exact FailsWith.ok _
    · intro e h
      cases h
      rfl

theorem resource_notFatal (h : FieldsPaired item.fields) : NotFatal (c.resource item).1 := by
  unfold resource
  split
  · intro e he
    cases he
    exact itemToken_notFatal c item _ _ ‹_›
  · refine FailsWith.bind (resolveProperties_notFatal (h.filter _) _ _ _ _) (fun inputs _ => ?_)
    exact FailsWith.bind (resolveProperties_notFatal h _ _ _ _) (fun outputs _ => FailsWith.pure _)

theorem dataSource_notFatal (h : FieldsPaired item.fields) : NotFatal (c.dataSource item).1 := by
  unfold dataSource
  split
  · intro e he
    cases he
    exact itemToken_notFatal c item _ _ ‹_›
  · refine FailsWith.bind (resolveProperties_notFatal (h.filter _) _ _ _ _) (fun arguments _ => ?_)
    exact FailsWith.bind (resolveProperties_notFatal (h.filter _) _ _ _ _) (fun results _ => FailsWith.pure _)

theorem providerResource_notFatal {config : List PairedField} (h : FieldsPaired config) :
    NotFatal (c.providerResource config) :=
  FailsWith.bind (resolveProperties_notFatal h _ _ _ _) (fun _ _ => FailsWith.pure _)

variable {c item}

theorem resource_ok {r : Resource} (h : (c.resource item).1 = .ok r) :
    r.rawName = item.rawName ∧ r.isProvider = false ∧ c.itemToken item Text.pascalCase = .ok r.token := by
  unfold resource at h
  split at h
  · cases h
  · obtain ⟨inputs, _, h⟩ := bind_eq_ok.mp h
    obtain ⟨outputs, _, h⟩ := bind_eq_ok.mp h
    cases h
    exact ⟨rfl, rfl, ‹_›⟩

theorem dataSource_ok {f : DataSource} (h : (c.dataSource item).1 = .ok f) :
    f.rawName = item.rawName ∧ c.itemToken item Text.camelCase = .ok f.token := by
  unfold dataSource at h
  split at h
  · cases h
  · obtain ⟨arguments, _, h⟩ := bind_eq_ok.mp h
    obtain ⟨results, _, h⟩ := bind_eq_ok.mp h
    cases h
    exact ⟨rfl, ‹_›⟩

theorem providerResource_ok {config : List PairedField} {r : Resource}
    (h : c.providerResource config = .ok r) :
    r.isProvider = true := by
  obtain ⟨inputs, _, h⟩ := bind_eq_ok.mp h
  cases h
  rfl

def Notices (diagnostics : List Diagnostic) : Prop :=
  ∀ d ∈ diagnostics, d.isError = false ∧ d.phase = "resolve"

theorem Notices.append {first second : List Diagnostic} (h : Notices first) (h' : Notices second) :
    Notices (first ++ second) := by
  intro d hd
  rcases List.mem_append.mp hd with hd | hd
  · exact h d hd
  · exact h' d hd

theorem notices_lookUp (library : DocLibrary) (kind : DocKind) (stem : String) :
    Notices (lookUp library kind stem).2 := by
  intro d hd
  obtain ⟨message, _, rfl⟩ := List.mem_map.mp hd
  exact ⟨rfl, rfl⟩

variable (c item)

theorem notices_borrow (library : DocLibrary) (kind : DocKind) (page : DocPage) (rawName : Option String)
    (arguments attributes : Bool) : Notices (c.borrow library kind page rawName arguments attributes).2 := by
  cases rawName with
  | none => simp [borrow, Notices]
  | some rawName =>
    have h := notices_lookUp library kind (c.docStem rawName)
    rw [borrow]
    generalize lookUp library kind (c.docStem rawName) = found at h ⊢
    obtain ⟨_ | page, diagnostics⟩ := found <;> exact h

theorem notices_itemPage (kind : DocKind) : Notices (c.itemPage kind item).2 := by
  unfold itemPage
  split
  · simp [Notices]
  · rename_i library _
    have h := notices_lookUp library kind (item.docs.source.getD (c.docStem item.rawName))
    split
    · rename_i heq
      rwa [heq] at h
    · rename_i page diagnostics heq
      rw [heq] at h
      dsimp only
      split
      · exact h.append (notices_borrow c library kind page _ true true)
      · refine Notices.append (h.append (notices_borrow c library kind page _ true false)) ?_
        exact notices_borrow c library kind _ _ false true

theorem notices_resource : Notices (c.resource item).2 := by
  unfold resource
  split
  · simp [Notices]
  · exact notices_itemPage c item .resource

theorem notices_dataSource : Notices (c.dataSource item).2 := by
  unfold dataSource
  split
  · simp [Notices]
  · exact notices_itemPage c item .dataSource

end ResolveContext

theorem partitionResults_notFatal {α : Type} {results : List (String × Except ResolveError α)}
    (h : ∀ result ∈ results, NotFatal result.2) :
    ∀ failure ∈ (partitionResults results).2, failure.2.isFatal = false := by
  induction results with
  | nil => simp [partitionResults]
  | cons result rest ih =>
    obtain ⟨item, result⟩ := result
    have hrest := ih (fun other hmem => h other (List.mem_cons_of_mem _ hmem))
    cases result with
    | ok a => exact hrest
    | error e =>
      intro failure hfailure
      rcases List.mem_cons.mp hfailure with rfl | hfailure
      · exact h _ List.mem_cons_self e rfl
      · exact hrest failure hfailure

structure PairedProvider.FieldsPaired (p : PairedProvider) : Prop where
  config : ProviderSdk.FieldsPaired p.config
  resources : ∀ item ∈ p.resources, ProviderSdk.FieldsPaired item.fields
  dataSources : ∀ item ∈ p.dataSources, ProviderSdk.FieldsPaired item.fields

theorem Document.fieldsPaired_paired (d : Document) : d.paired.1.FieldsPaired where
  config := fieldsPaired_pairObject _ _
  resources := by
    intro item hitem
    obtain ⟨fields, o, _, _, _, hfields⟩ := mem_pairItems _ _ hitem
    rw [hfields]
    exact fieldsPaired_pairObject _ fields
  dataSources := by
    intro item hitem
    obtain ⟨fields, o, _, _, _, hfields⟩ := mem_pairItems _ _ hitem
    rw [hfields]
    exact fieldsPaired_pairObject _ fields

theorem PairedProvider.FieldsPaired.failures_notFatal {p : PairedProvider} (h : p.FieldsPaired)
    (c : ResolveContext) :
    ∀ failure ∈ (p.resolve c).failures, failure.2.isFatal = false := by
  intro failure hfailure
  simp only [PairedProvider.resolve, List.mem_append] at hfailure
  rcases hfailure with ((hfailure | hfailure) | hfailure) | hfailure
  · refine partitionResults_notFatal ?_ failure hfailure
    simpa using resolveProperties_notFatal h.config c.package "" .input none
  · split at hfailure
    · simp at hfailure
    · refine partitionResults_notFatal ?_ failure hfailure
      simpa using c.providerResource_notFatal h.config
  · refine partitionResults_notFatal ?_ failure hfailure
    simpa using fun item hitem => c.resource_notFatal item (h.resources item hitem)
  · refine partitionResults_notFatal ?_ failure hfailure
    simpa using fun item hitem => c.dataSource_notFatal item (h.dataSources item hitem)

/-- What is noticed while items are resolved is a warning of this phase. -/
theorem PairedProvider.notices_resolve (p : PairedProvider) (c : ResolveContext) :
    ResolveContext.Notices (p.resolve c).diagnostics := by
  intro d hd
  simp only [PairedProvider.resolve, List.flatMap_map, List.mem_append, List.mem_flatMap] at hd
  rcases hd with ⟨item, _, hd⟩ | ⟨item, _, hd⟩
  · exact c.notices_resource item d hd
  · exact c.notices_dataSource item d hd

end ProviderSdk
