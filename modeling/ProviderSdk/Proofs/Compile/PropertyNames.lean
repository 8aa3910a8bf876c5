import Mathlib.Data.List.Nodup
import ProviderSdk.Proofs.Compile.Projection

/-!
# Names of properties

Which fields of a document the arguments of a resolved resource or data source stand for, and how
they are named: each property has the name that the override of its field gives it, or else the
canonical name of the key. The names in one list of properties are not compared with each other, so
that they are distinct, in whatever spelling, exactly if the spelling tells the keys of the fields
apart.
-/

namespace ProviderSdk

def ObjectSchema.keysWhere (selected : FieldSchema → Prop) (fields : ObjectSchema) : Set String :=
  {key | ∃ f, (key, f) ∈ fields ∧ f.isRemoved = false ∧ selected f}

structure ObjectSchema.Named (selected : FieldSchema → Prop) (fields : ObjectSchema)
    (overrides : OverrideLookup) (properties : List Property) : Prop where
  distinct : (properties.map (fun p => p.rawName)).Nodup
  mem : ∀ key, key ∈ properties.map (fun p => p.rawName) ↔ key ∈ fields.keysWhere selected
  name : ∀ p ∈ properties, p.name = propertyName p.rawName (overrides p.rawName)

variable {package owner : String} {position : Position} {selected : FieldSchema → Prop}
  {fields : ObjectSchema}
  {overrides : OverrideLookup} {properties : List Property}

/-- Spelled in some way, the names of properties are distinct exactly if the fields are told apart. -/
theorem ObjectSchema.Named.nodup_map_iff (h : fields.Named selected overrides properties)
    (spelling : String → String) : (properties.map (fun p => spelling p.name)).Nodup ↔
      Set.InjOn (fun key => spelling (propertyName key (overrides key))) (fields.keysWhere selected) := by
  have hspelled : properties.map (fun p => spelling p.name) =
      (properties.map (fun p => p.rawName)).map (fun key => spelling (propertyName key (overrides key))) := by
    rw [List.map_map]
    exact List.map_congr_left (fun p hp => congrArg spelling (h.name p hp))
  rw [hspelled, List.nodup_map_iff_inj_on h.distinct]
  simp only [h.mem]
  rfl

theorem ObjectSchema.Named.perm {others : List Property} (h : fields.Named selected overrides properties)
    (hperm : others.Perm properties) : fields.Named selected overrides others where
  distinct := (hperm.map _).nodup_iff.mpr h.distinct
  mem := fun key => (hperm.map _).mem_iff.trans (h.mem key)
  name := fun p hp => h.name p (hperm.mem_iff.mp hp)

theorem ObjectSchema.HasProperties.named (h : fields.HasProperties package position selected properties)
    (hnames : ∀ p ∈ properties, p.name = propertyName p.rawName (overrides p.rawName)) :
    fields.Named selected overrides properties where
  distinct := List.pairwise_map.mpr (h.sorted.imp (fun hlt => ne_of_lt hlt))
  mem := by
    intro key
    constructor
    · intro hkey
      obtain ⟨p, hp, rfl⟩ := List.mem_map.mp hkey
      cases h.each p hp with | @intro _ _ f _ field active select _ _ =>
      exact ⟨f, field, active, select⟩
    · rintro ⟨f, hfield, hactive, hselected⟩
      obtain ⟨p, hp, rfl⟩ := h.complete key f hfield hactive hselected
      exact List.mem_map_of_mem hp
  name := hnames

@[simp] theorem override_pairField (key : String) (override : Option FieldOverride) (f : FieldSchema) :
    (pairField key override f).override = override := by
  cases f <;> rfl

theorem exists_field_of_mem_resolved {page : Option DocPage} {paired : List PairedField}
    (hpaired : paired ⊆ pairObject overrides fields)
    (h : resolveProperties package owner position page paired = .ok properties) {p : Property}
    (hp : p ∈ properties) :
    ∃ f, (p.rawName, f) ∈ fields ∧ f.isRemoved = false ∧
      p.name = propertyName p.rawName (overrides p.rawName) ∧
      typeOf package owner position (pairField p.rawName (overrides p.rawName) f) = .ok p.type := by
  obtain ⟨paired, hmem, hproperty⟩ := exists_of_mem_of_mapM_eq_ok h hp
  obtain ⟨key, f, hfield, hactive, rfl⟩ := mem_pairObject.mp (hpaired hmem)
  obtain ⟨type, htype, hproperty⟩ := bind_eq_ok.mp hproperty
  cases hproperty
  exact ⟨f, by simpa [propertyOf] using ⟨hfield, hactive, htype⟩⟩

/-- A field holds objects with the given fields and overrides, at whatever depth. -/
inductive FieldSchema.Nests : FieldSchema → Option FieldOverride → ObjectSchema → OverrideLookup → Prop where
  | element {kind f traits override fields overrides} (inner : f.Nests (override.bind (fun o => o.element))
    fields overrides) :
      (FieldSchema.collection kind (.field f) traits).Nests override fields overrides
  | object {kind fields traits override} :
      (FieldSchema.collection kind (.object fields) traits).Nests override fields (innerOverrides override)
  | member {kind fields traits override key f inner overrides} (field : (key, f) ∈ fields)
    (active : f.isRemoved = false)
      (nested : f.Nests (innerOverrides override key) inner overrides) :
      (FieldSchema.collection kind (.object fields) traits).Nests override inner overrides

/-- Some field of an object that is not removed holds objects with the given fields and overrides,
at whatever depth. -/
def ObjectSchema.Nests (fields : ObjectSchema) (overrides : OverrideLookup) (inner : ObjectSchema)
    (innerOverrides : OverrideLookup) : Prop :=
  ∃ key f, (key, f) ∈ fields ∧ f.isRemoved = false ∧ f.Nests (overrides key) inner innerOverrides

/-- An object type is that of objects which something holds: it has a property for each field of
these that may stand in the position. -/
def ObjectType.Within (position : Position) (holds : ObjectSchema → OverrideLookup → Prop) (o : ObjectType) :
    Prop :=
  ∃ inner innerOverrides, holds inner innerOverrides ∧
    inner.Named (FieldSchema.SettableAt position) innerOverrides o.properties

theorem objects_overriddenType? {override : Option FieldOverride} {result : Except ResolveError TypeRef}
    {type : TypeRef} (h : overriddenType? package override position = some result) (hok : result = .ok type) :
    type.objects = [] := by
  cases overriddenType?_hasType h hok (.scalar .bool {}) with
  | custom => rfl
  | asset => rfl
  | scalar => rfl

theorem objects_collection {kind : CollectionKind} {inner type : TypeRef} {isSingle : Bool}
    (h : (match kind with
      | .map => pure (.map inner)
      | _ => pure (if isSingle then inner else .array inner) : Except ResolveError TypeRef) = .ok type) :
    type.objects = inner.objects := by
  cases kind <;> cases isSingle <;> cases h <;> rfl

theorem exists_nests_of_mem_propertyObjects {page : Option DocPage} {paired : List PairedField}
    (hpaired : paired ⊆ pairObject overrides fields)
    (h : resolveProperties package owner position page paired = .ok properties)
    (hinner : ∀ key f, (key, f) ∈ fields → ∀ type,
      typeOf package owner position (pairField key (overrides key) f) = .ok type →
        ∀ o ∈ type.objects, o.Within position (f.Nests (overrides key))) :
    ∀ o ∈ propertyObjects properties, o.Within position (fields.Nests overrides) := by
  intro o ho
  rw [propertyObjects_eq] at ho
  obtain ⟨p, hp, ho⟩ := List.mem_flatMap.mp ho
  obtain ⟨f, hfield, hactive, -, htype⟩ := exists_field_of_mem_resolved hpaired h hp
  obtain ⟨inner, innerOverrides, hnests, hnamed⟩ := hinner _ f hfield _ htype o ho
  exact ⟨inner, innerOverrides, ⟨_, f, hfield, hactive, hnests⟩, hnamed⟩

/-- The object types inside the type of a property are those of what the field holds. -/
theorem typeOf_within {f : FieldSchema} (hordered : f.Ordered) {key : String}
    {override : Option FieldOverride} {type : TypeRef}
    (h : typeOf package owner position (pairField key override f) = .ok type) :
    ∀ o ∈ type.objects, o.Within position (f.Nests override) := by
  have hnone {override : Option FieldOverride} {result : Except ResolveError TypeRef} {type : TypeRef}
      {holds : ObjectSchema → OverrideLookup →
        Prop} (hsaid : overriddenType? package override position = some result)
      (hok : result = .ok type) : ∀ o ∈ type.objects, o.Within position holds := by
    rw [objects_overriddenType? hsaid hok]
    simp
  induction f generalizing key owner override type with
  | scalar kind traits =>
    rw [pairField, typeOf] at h
    split at h
    · next hsaid => exact hnone hsaid h
    · cases h
      cases kind <;> simp [scalarType, TypeRef.objects]
  | field kind f traits ih =>
    cases hordered with | collection inner =>
    cases inner with | field inner =>
    rw [pairField, typeOf] at h
    split at h
    · next hsaid => exact hnone hsaid h
    · obtain ⟨elementType, htype, h⟩ := bind_eq_ok.mp h
      intro o ho
      rw [objects_collection h] at ho
      obtain ⟨fields, overrides, hnests, hnamed⟩ := ih inner htype o ho
      exact ⟨fields, overrides, .element hnests, hnamed⟩
  | object kind fields traits ih =>
    cases hordered with | collection inner =>
    cases inner with | object keys inner =>
    rw [pairField, typeOf] at h
    split at h
    · next hsaid => exact hnone hsaid h
    · obtain ⟨elementType, htype, h⟩ := bind_eq_ok.mp h
      rw [pairElement, ProviderSdk.elementType] at htype
      obtain ⟨properties, hproperties, htype⟩ := bind_eq_ok.mp htype
      cases htype
      rw [nestedProperties_eq] at hproperties
      intro o ho
      rw [objects_collection h, TypeRef.objects, ObjectType.innerObjects] at ho
      have hall := ObjectSchema.Ordered.hasProperties ⟨keys, inner⟩ decide_settable_iff hproperties
      rcases List.mem_cons.mp ho with rfl | ho
      · refine ⟨fields, innerOverrides override, .object, hall.named (fun p hp => ?_)⟩
        obtain ⟨f, -, -, hname, -⟩ := exists_field_of_mem_resolved (List.filter_subset_self _) hproperties hp
        exact hname
      · obtain ⟨inner', overrides, ⟨key, f, hfield, hactive, hnests⟩, hnamed⟩ :=
          exists_nests_of_mem_propertyObjects (List.filter_subset_self _) hproperties
            (fun key f hf type htype => ih key f hf (inner _ hf) htype) o ho
        exact ⟨inner', overrides, .member hfield hactive hnests, hnamed⟩

/-- Properties stand for the selected fields of an object, and the object types inside their types
for what these fields hold. -/
structure ObjectSchema.NamesDeep (position : Position) (selected : FieldSchema → Prop) (fields : ObjectSchema)
    (overrides : OverrideLookup) (properties : List Property) : Prop where
  own : fields.Named selected overrides properties
  nested : ∀ o ∈ propertyObjects properties, o.Within position (fields.Nests overrides)

theorem ObjectSchema.Ordered.namesDeep (h : ObjectSchema.Ordered fields) {page : Option DocPage}
    {keep : PairedField → Bool} (hkeep : ∀ f, keep f = true ↔ selected f.schema)
    (hok : resolveProperties package owner position page ((pairObject overrides fields).filter keep) =
      .ok properties) :
    fields.NamesDeep position selected overrides properties where
  own := (h.hasProperties hkeep hok).named (fun p hp => by
    obtain ⟨f, -, -, hname, -⟩ := exists_field_of_mem_resolved (List.filter_subset_self _) hok hp
    exact hname)
  nested := exists_nests_of_mem_propertyObjects (List.filter_subset_self _) hok
    (fun _ _ hf _ htype => typeOf_within (h.inner _ hf) htype)

theorem ObjectSchema.Ordered.namesAllDeep (h : ObjectSchema.Ordered fields) {page : Option DocPage}
    (hok : resolveProperties package owner position page (pairObject overrides fields) = .ok properties) :
    fields.NamesDeep position (fun _ => True) overrides properties := by
  have hall : (pairObject overrides fields).filter (fun _ => true) = pairObject overrides fields := by simp
  rw [← hall] at hok
  exact h.namesDeep (fun _ => by simp) hok

def Member.types : Member → List (Position × ObjectType)
  | .resource r => [(.input, ⟨r.argsTypeName, r.inputs⟩), (.output, ⟨r.name, r.outputs⟩)]
  | .dataSource f => [(.input, ⟨f.argsTypeName, f.arguments⟩), (.output, ⟨f.resultTypeName, f.results⟩)]
  | _ => []

/-- Which fields of a document the arguments or results of a member stand for, and the overrides of
these. The arguments of the provider resource are the configuration, and it has no results; for all
others the fields are of the item with the raw name. -/
inductive Document.Gives (d : Document) :
    Member → Position → (FieldSchema → Prop) → ObjectSchema → OverrideLookup → Prop where
  | configuration {r} (own : r.isProvider = true) :
      d.Gives (.resource r) .input (fun _ => True) d.provider.config (fun key => d.config.lookup key)
  | nothing {r} (own : r.isProvider = true) : d.Gives (.resource r) .output (fun _ => True) [] (fun _ => none)
  | inputs {r fields o} (own : r.isProvider = false) (item : (r.rawName, fields) ∈ d.provider.resources)
      (override : d.resources.lookup r.rawName = some o) :
      d.Gives (.resource r) .input (fun f => f.isInput = true) fields (fun key => o.fields.lookup key)
  | outputs {r fields o} (own : r.isProvider = false) (item : (r.rawName, fields) ∈ d.provider.resources)
      (override : d.resources.lookup r.rawName = some o) :
      d.Gives (.resource r) .output (fun _ => True) fields (fun key => o.fields.lookup key)
  | arguments {f fields o} (item : (f.rawName, fields) ∈ d.provider.dataSources)
      (override : d.dataSources.lookup f.rawName = some o) :
      d.Gives (.dataSource f) .input (fun f => f.isInput = true) fields (fun key => o.fields.lookup key)
  | results {f fields o} (item : (f.rawName, fields) ∈ d.provider.dataSources)
      (override : d.dataSources.lookup f.rawName = some o) :
      d.Gives (.dataSource f) .output (fun f => f.traits.computed = true) fields
        (fun key => o.fields.lookup key)

/-- The properties in the types of a member are named by the fields that the document gives it. -/
def Member.NamedBy (d : Document) (member : Member) : Prop :=
  ∀ position type, (position, type) ∈ member.types → ∃ selected fields overrides,
    d.Gives member position selected fields overrides ∧
      fields.NamesDeep position selected overrides type.properties

section

variable {c : ResolveContext} {d : Document}

theorem resource_namedBy {item : PairedItem} {r : Resource} (hordered : d.provider.Ordered)
    (hitem : item ∈ d.paired.1.resources) (h : (c.resource item).1 = .ok r) :
    (Member.resource r).NamedBy d := by
  obtain ⟨fields, o, hmem, hoverride, -, hfields⟩ := mem_pairItems _ _ hitem
  obtain ⟨hname, hown, owner, page, hinputs, houtputs⟩ := resource_ok h
  rw [hfields] at hinputs houtputs
  have hinner := hordered.resources _ hmem
  rw [← hname] at hmem hoverride
  intro position type htype
  simp only [Member.types, List.mem_cons, List.not_mem_nil, or_false] at htype
  rcases htype with ⟨⟨⟩⟩ | ⟨⟨⟩⟩
  · exact ⟨_, fields, _, .inputs hown hmem hoverride, hinner.namesDeep (fun _ => .rfl) hinputs⟩
  · exact ⟨_, fields, _, .outputs hown hmem hoverride, hinner.namesAllDeep houtputs⟩

theorem dataSource_namedBy {item : PairedItem} {f : DataSource} (hordered : d.provider.Ordered)
    (hitem : item ∈ d.paired.1.dataSources) (h : (c.dataSource item).1 = .ok f) :
    (Member.dataSource f).NamedBy d := by
  obtain ⟨fields, o, hmem, hoverride, -, hfields⟩ := mem_pairItems _ _ hitem
  obtain ⟨hname, owner, page, harguments, hresults⟩ := dataSource_ok h
  rw [hfields] at harguments hresults
  have hinner := hordered.dataSources _ hmem
  rw [← hname] at hmem hoverride
  intro position type htype
  simp only [Member.types, List.mem_cons, List.not_mem_nil, or_false] at htype
  rcases htype with ⟨⟨⟩⟩ | ⟨⟨⟩⟩
  · exact ⟨_, fields, _, .arguments hmem hoverride, hinner.namesDeep (fun _ => .rfl) harguments⟩
  · exact ⟨_, fields, _, .results hmem hoverride, hinner.namesDeep (fun _ => .rfl) hresults⟩

theorem providerResource_namedBy {r : Resource} (hordered : d.provider.Ordered)
    (h : c.providerResource d.paired.1.config = .ok r) : (Member.resource r).NamedBy d := by
  obtain ⟨inputs, hinputs, h⟩ := bind_eq_ok.mp h
  cases h
  intro position type htype
  simp only [Member.types, List.mem_cons, List.not_mem_nil, or_false] at htype
  rcases htype with ⟨⟨⟩⟩ | ⟨⟨⟩⟩
  · exact ⟨_, _, _, .configuration rfl, hordered.config.namesAllDeep hinputs⟩
  · exact ⟨_, _, _, .nothing rfl, ⟨by simp, by simp [ObjectSchema.keysWhere], by simp⟩,
      by simp [propertyObjects]⟩

end

end ProviderSdk
