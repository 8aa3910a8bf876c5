import ProviderSdk.Proofs.Json.Reading
import ProviderSdk.Schema.DocumentReading

/-!
# Order of schemas

The fields of an object stand in the order of their keys, at every level of a schema. Every document
that is loaded has such a schema: maps are read so, and checking what is written keeps all keys.
-/

namespace ProviderSdk

open Json (Ascending)

mutual

/-- All objects that a field nests have their fields in the order of the keys. -/
inductive FieldSchema.Ordered : FieldSchema → Prop where
  | scalar {kind traits} : FieldSchema.Ordered (.scalar kind traits)
  | collection {kind element traits} (inner : element.Ordered) :
    FieldSchema.Ordered (.collection kind element traits)

/-- All objects that an element nests have their fields in the order of the keys. -/
inductive Element.Ordered : Element → Prop where
  | field {f} (inner : f.Ordered) : Element.Ordered (.field f)
  | object {fields} (keys : Ascending fields) (inner : ∀ m ∈ fields, m.2.Ordered) :
    Element.Ordered (.object fields)

end

/-- An object has its fields in the order of the keys, and so have all objects below. -/
structure ObjectSchema.Ordered (fields : ObjectSchema) : Prop where
  keys : Ascending fields
  inner : ∀ m ∈ fields, m.2.Ordered

/-- All objects of a provider schema have their fields in the order of the keys. -/
structure ProviderSchema.Ordered (p : ProviderSchema) : Prop where
  config : ObjectSchema.Ordered p.config
  resources : ∀ item ∈ p.resources, ObjectSchema.Ordered item.2
  dataSources : ∀ item ∈ p.dataSources, ObjectSchema.Ordered item.2

/-- All objects that a written element nests have their fields in the order of the keys. -/
inductive WireElement.Sorted : WireElement → Prop where
  | intro {e : WireElement} (schema : ∀ f inner, e.schema = some f → f.element = some inner →
    WireElement.Sorted inner)
      (keys : ∀ fields, e.resource = some fields → Ascending fields)
      (resource : ∀ fields m inner, e.resource = some fields → m ∈ fields → m.2.element = some inner →
        WireElement.Sorted inner) : WireElement.Sorted e

/-- All objects that a written field nests have their fields in the order of the keys. -/
def WireField.Sorted (f : WireField) : Prop := ∀ e, f.element = some e → e.Sorted

/-- Written fields stand in the order of their keys, and so do those of all objects below. -/
def SortedFields (fields : List (String × WireField)) : Prop := Ascending fields ∧ ∀ m ∈ fields, m.2.Sorted

/-- All objects of a provider schema as it is written have their fields in the order of the keys,
and the items of each section stand in the order of their names. -/
structure WireProvider.Sorted (p : WireProvider) : Prop where
  schema : SortedFields p.schema
  resources : Ascending p.resources ∧ ∀ item ∈ p.resources, SortedFields item.2
  dataSources : Ascending p.dataSources ∧ ∀ item ∈ p.dataSources, SortedFields item.2

theorem WireElement.sorted_of_parts {e : WireElement} (hschema : ∀ f, e.schema = some f → f.Sorted)
    (hresource : ∀ fields, e.resource = some fields → SortedFields fields) : e.Sorted :=
  .intro (fun f inner hf hinner => hschema f hf inner hinner)
    (fun fields hfields => (hresource fields hfields).1)
    (fun fields m inner hfields hm hinner => (hresource fields hfields).2 m hm inner hinner)

def WireElement.Orderly (e : WireElement) : Prop :=
  ∀ path element, e.check path = .ok element → element.Ordered

def WireField.Orderly (f : WireField) : Prop := ∀ e, f.element = some e → e.Orderly

def OrderlyFields (fields : List (String × WireField)) : Prop := Ascending fields ∧ ∀ m ∈ fields, m.2.Orderly

theorem WireField.Orderly.check {f : WireField} (h : f.Orderly) {path : String} {schema : FieldSchema}
    (hcheck : f.check path = .ok schema) : schema.Ordered := by
  obtain ⟨type, traits, element⟩ := f
  rw [WireField.check] at hcheck
  split at hcheck
  · cases hcheck
    exact .scalar
  · split at hcheck
    · next e =>
      obtain ⟨element, helement, hcheck⟩ := bind_eq_ok.mp hcheck
      cases hcheck
      exact .collection (h e rfl _ _ helement)
    · cases hcheck
  · cases hcheck

theorem checkFields_keys {path : String} {fields : List (String × WireField)} {schema : ObjectSchema}
    (h : checkFields path fields = .ok schema) : schema.map Prod.fst = fields.map Prod.fst := by
  induction fields generalizing schema with
  | nil =>
    cases h
    rfl
  | cons m rest ih =>
    rw [checkFields] at h
    obtain ⟨f, _, h⟩ := bind_eq_ok.mp h
    obtain ⟨rest', hrest, h⟩ := bind_eq_ok.mp h
    cases h
    simp [ih hrest]

theorem checkFields_inner {path : String} {fields : List (String × WireField)} {schema : ObjectSchema}
    (h : checkFields path fields = .ok schema) (horderly : ∀ m ∈ fields, m.2.Orderly) :
    ∀ m ∈ schema, m.2.Ordered := by
  induction fields generalizing schema with
  | nil =>
    cases h
    simp
  | cons first rest ih =>
    rw [checkFields] at h
    obtain ⟨f, hf, h⟩ := bind_eq_ok.mp h
    obtain ⟨rest', hrest, h⟩ := bind_eq_ok.mp h
    cases h
    intro m hm
    rcases List.mem_cons.mp hm with rfl | hm
    · exact (horderly first List.mem_cons_self).check hf
    · exact ih hrest (fun m hm => horderly m (List.mem_cons_of_mem _ hm)) m hm

theorem OrderlyFields.check {fields : List (String × WireField)} (h : OrderlyFields fields) {path : String}
    {schema : ObjectSchema} (hcheck : checkFields path fields = .ok schema) :
    ObjectSchema.Ordered schema where
  keys := by
    rw [Ascending, checkFields_keys hcheck]
    exact h.1
  inner := checkFields_inner hcheck h.2

theorem WireElement.orderly_of_parts {e : WireElement} (hschema : ∀ f, e.schema = some f → f.Orderly)
    (hresource : ∀ fields, e.resource = some fields → OrderlyFields fields) : e.Orderly := by
  intro path element hcheck
  obtain ⟨schema, resource⟩ := e
  cases schema with
  | some f =>
    cases resource with
    | some fields => cases hcheck
    | none =>
      obtain ⟨f', hf', hcheck⟩ := bind_eq_ok.mp hcheck
      cases hcheck
      exact .field ((hschema f rfl).check hf')
  | none =>
    cases resource with
    | some fields =>
      obtain ⟨schema, hfields, hcheck⟩ := bind_eq_ok.mp hcheck
      cases hcheck
      have hordered := (hresource fields rfl).check hfields
      exact .object hordered.keys hordered.inner
    | none => cases hcheck

theorem WireElement.Sorted.orderly {e : WireElement} (h : e.Sorted) : e.Orderly := by
  induction h with
  | intro _ keys _ schema resource =>
    exact WireElement.orderly_of_parts (fun f hf inner hinner => schema f inner hf hinner)
      (fun fields hfields =>
        ⟨keys fields hfields, fun m hm inner hinner => resource fields m inner hfields hm hinner⟩)

theorem SortedFields.orderly {fields : List (String × WireField)} (h : SortedFields fields) :
    OrderlyFields fields :=
  ⟨h.1, fun m hm e he => (h.2 m hm e he).orderly⟩

theorem checkItems_ordered {path : String} {items : List (String × List (String × WireField))}
    {schemas : List (String × ObjectSchema)} (hcheck : checkItems path items = .ok schemas)
    (hsorted : ∀ item ∈ items, SortedFields item.2) : ∀ item ∈ schemas, ObjectSchema.Ordered item.2 := by
  intro item hitem
  obtain ⟨⟨name, fields⟩, hmem, hchecked⟩ := exists_of_mem_of_mapM_eq_ok hcheck hitem
  obtain ⟨schema, hschema, hchecked⟩ := bind_eq_ok.mp hchecked
  cases hchecked
  exact (hsorted _ hmem).orderly.check hschema

theorem WireProvider.Sorted.check {p : WireProvider} (h : p.Sorted) {provider : ProviderSchema}
    (hcheck : p.check = .ok provider) : provider.Ordered := by
  obtain ⟨config, hconfig, hcheck⟩ := bind_eq_ok.mp hcheck
  obtain ⟨resources, hresources, hcheck⟩ := bind_eq_ok.mp hcheck
  obtain ⟨dataSources, hdataSources, hcheck⟩ := bind_eq_ok.mp hcheck
  cases hcheck
  exact ⟨h.schema.orderly.check hconfig, checkItems_ordered hresources h.resources.2,
    checkItems_ordered hdataSources h.dataSources.2⟩

namespace Reading

open Json.Reader (Gives RecordField RecordForm keeps_of keeps_needed record)
open Json (Reader)

theorem traitField_keeps {α : Type} {key : String} {read : Reader α} {set : FieldTraits → α → FieldTraits} :
    (traitField key read set).Keeps WireField.Sorted := keeps_of (fun _ _ h => h)

theorem wireFieldForm_keeps {element : Reader WireElement} (helement : Gives WireElement.Sorted element) :
    (wireFieldForm element).Keeps WireField.Sorted where
  empty := by
    intro e he
    cases he
  fields := by
    simp only [wireFieldForm, List.forall_mem_cons]
    exact ⟨keeps_needed (fun _ _ h => h), traitField_keeps, traitField_keeps, traitField_keeps,
      traitField_keeps, traitField_keeps, helement.option.keeps (fun _ _ _ h => h), traitField_keeps,
      traitField_keeps, traitField_keeps, traitField_keeps, traitField_keeps, traitField_keeps, by simp⟩

def SortedParts (e : WireElement) : Prop :=
  (∀ f, e.schema = some f → f.Sorted) ∧ ∀ fields, e.resource = some fields → SortedFields fields

theorem wireElementForm_keeps {field : Reader WireField} (hfield : Gives WireField.Sorted field) :
    (wireElementForm field).Keeps SortedParts where
  empty := by
    constructor
    · intro f hf
      cases hf
    · intro fields hfields
      cases hfields
  fields := by
    simp only [wireElementForm, List.forall_mem_cons]
    exact ⟨hfield.option.keeps (fun _ _ h h' => ⟨h', h.2⟩),
      hfield.map.option.keeps (fun _ _ h h' => ⟨h.1, h'⟩),
      by simp⟩

/-- Fields are sorted, however deep they nest. -/
theorem wireFieldWithin_sorted (levels : Nat) : Gives WireField.Sorted (wireFieldWithin levels) := by
  induction levels with
  | zero => exact Json.Reader.gives_refuseHere
  | succ levels ih =>
    refine (wireFieldForm_keeps ?_).record
    exact (wireElementForm_keeps ih).record.imp (fun e h => WireElement.sorted_of_parts h.1 h.2)

theorem wireObject_sorted : Gives SortedFields wireObject := (wireFieldWithin_sorted _).map

theorem providerForm_keeps : providerForm.Keeps WireProvider.Sorted where
  empty := ⟨⟨.nil, by simp [providerForm]⟩, ⟨.nil, by simp [providerForm]⟩, ⟨.nil, by simp [providerForm]⟩⟩
  fields := by
    simp only [providerForm, List.forall_mem_cons]
    refine ⟨wireObject_sorted.keeps ?_, wireObject_sorted.map.keeps ?_,
      wireObject_sorted.map.keeps ?_, by simp⟩
    · exact fun p schema h hschema => ⟨hschema, h.resources, h.dataSources⟩
    · exact fun p resources h hresources => ⟨h.schema, hresources, h.dataSources⟩
    · exact fun p dataSources h hdataSources => ⟨h.schema, h.resources, hdataSources⟩

theorem documentField_keeps {α : Type} {key : String} {read : Reader α} {set : Document → α → Document} :
    (documentField key read set).Keeps (fun w => w.provider.Sorted) := keeps_of (fun _ _ h => h)

theorem documentForm_keeps : documentForm.Keeps (fun w => w.provider.Sorted) where
  empty := providerForm_keeps.empty
  fields := by
    simp only [documentForm, List.forall_mem_cons]
    exact ⟨documentField_keeps, documentField_keeps, documentField_keeps, documentField_keeps,
      documentField_keeps, documentField_keeps, providerForm_keeps.record.keeps (fun _ _ _ h => h),
      documentField_keeps, documentField_keeps, documentField_keeps, documentField_keeps, documentField_keeps,
      documentField_keeps, documentField_keeps, documentField_keeps, by simp⟩

end Reading

/-- All maps of a document that is read stand in the order of their keys. -/
theorem WireDocument.sorted_of_parse {text : String} {w : WireDocument}
    (h : WireDocument.parse text = .ok w) :
    w.provider.Sorted := Reading.documentForm_keeps.record.run h

/-- Every loaded document has a schema whose objects have their fields in the order of the keys. -/
theorem Document.ordered_of_load {source : SourceText} {d : Document} (h : Document.load source = .ok d) :
    d.provider.Ordered := by
  rw [load] at h
  split at h
  · cases h
  · next w hparse =>
    have hsorted := WireDocument.sorted_of_parse hparse
    split at h
    · cases h
    · next d' hcheck =>
      cases h
      obtain ⟨provider, hprovider, hcheck⟩ := bind_eq_ok.mp hcheck
      cases hcheck
      exact hsorted.check hprovider

end ProviderSdk
