import ProviderSdk.Proofs.Compile.Accounting
import ProviderSdk.Proofs.Schema.Order

/-!
# Projected schemas

What is resolved has the form of the schema that it comes from, at every depth of its object types:
properties stand in the order of their raw names, none comes from a removed field, all have the
position of what they belong to, and objects that a user gives have only fields that may be set.
Types given by tokens belong to the package, and only inputs have alternatives to them.
-/

namespace ProviderSdk

open Json (Ascending)

/-- A field may stand in an object type: a user may set it, or the object is given by the provider. -/
def FieldSchema.SettableAt (position : Position) (f : FieldSchema) : Prop :=
  position = .input → f.isInput = true

mutual

inductive FieldSchema.HasType (package : String) (position : Position) : FieldSchema → TypeRef → Prop where
  | custom {f token altTypes} (own : token.package = package)
    (ownAlternatives : ∀ t ∈ altTypes, t.package = package)
      (alternatives : position = .output → altTypes = []) :
      FieldSchema.HasType package position f (.custom ⟨token, altTypes⟩)
  | asset {f kind} : FieldSchema.HasType package position f (.asset kind)
  | scalar {kind traits} : FieldSchema.HasType package position (.scalar kind traits) (scalarType kind)
  | map {element traits type} (inner : Element.HasType package position element type) :
      FieldSchema.HasType package position (.collection .map element traits) (.map type)
  | array {kind element traits type} (ordinary : kind ≠ .map)
    (inner : Element.HasType package position element type) :
      FieldSchema.HasType package position (.collection kind element traits) (.array type)
  | single {kind element traits type} (ordinary : kind ≠ .map)
    (inner : Element.HasType package position element type) :
      FieldSchema.HasType package position (.collection kind element traits) type

inductive Element.HasType (package : String) (position : Position) : Element → TypeRef → Prop where
  | field {f type} (inner : FieldSchema.HasType package position f type) :
      Element.HasType package position (.field f) type
  | object {fields name properties} (sorted : properties.Pairwise (fun p q => p.rawName < q.rawName))
      (each : ∀ p ∈ properties, ObjectSchema.HasProperty package position
        (FieldSchema.SettableAt position) fields p)
      (complete : ∀ key f, (key, f) ∈ fields → f.isRemoved = false → f.SettableAt position →
        ∃ p ∈ properties, p.rawName = key) :
      Element.HasType package position (.object fields) (.object ⟨name, properties⟩)

inductive ObjectSchema.HasProperty (package : String) (position : Position) :
    (FieldSchema → Prop) → ObjectSchema → Property → Prop where
  | intro {selected fields f p} (field : (p.rawName, f) ∈ fields) (active : f.isRemoved = false)
    (select : selected f)
      (samePosition : p.position = position) (type : FieldSchema.HasType package position f p.type) :
      ObjectSchema.HasProperty package position selected fields p

end

/-- The properties of the selected fields of an object, in the order of their raw names. -/
structure ObjectSchema.HasProperties (package : String) (position : Position) (selected : FieldSchema → Prop)
    (fields : ObjectSchema) (properties : List Property) : Prop where
  sorted : properties.Pairwise (fun p q => p.rawName < q.rawName)
  each : ∀ p ∈ properties, ObjectSchema.HasProperty package position selected fields p
  complete : ∀ key f, (key, f) ∈ fields → f.isRemoved = false → selected f → ∃ p ∈ properties, p.rawName = key

variable {package owner : String} {position : Position}

theorem localToken_ok {text : String} {token : Token} (h : localToken package text = .ok token) :
    token.package = package := by
  obtain ⟨t, _, h⟩ := bind_eq_ok.mp h
  split at h
  · next heq =>
    cases h
    exact heq
  · cases h

theorem overriddenType?_hasType {override : Option FieldOverride} {result : Except ResolveError TypeRef}
    {type : TypeRef} (h : overriddenType? package override position = some result) (hok : result = .ok type)
    (f : FieldSchema) : f.HasType package position type := by
  subst hok
  unfold overriddenType? at h
  split at h
  · obtain ⟨token, htoken, hok⟩ := bind_eq_ok.mp (Option.some.inj h)
    cases position with
    | input =>
      obtain ⟨altTypes, haltTypes, hok⟩ := bind_eq_ok.mp hok
      cases hok
      refine .custom (localToken_ok htoken) (fun t ht => ?_) (by simp)
      obtain ⟨_, _, ht⟩ := exists_of_mem_of_mapM_eq_ok haltTypes ht
      exact localToken_ok ht
    | output =>
      cases hok
      exact .custom (localToken_ok htoken) (by simp) (fun _ => rfl)
  · split at h
    · cases h
      exact .asset
    · cases h

theorem resolveProperty_ok {page : Option DocPage} {f : PairedField} {p : Property}
    (h : resolveProperty package owner position page f = .ok p) :
    p.rawName = f.key ∧ p.position = position ∧ typeOf package owner position f = .ok p.type := by
  obtain ⟨type, htype, h⟩ := bind_eq_ok.mp h
  cases h
  exact ⟨rfl, rfl, htype⟩

theorem resolveProperties_rawNames {page : Option DocPage} {fields : List PairedField}
    {properties : List Property} (h : resolveProperties package owner position page fields = .ok properties) :
    properties.map (fun p => p.rawName) = fields.map (fun f => f.key) := by
  replace h := forall₂_of_mapM_eq_ok h
  induction h with
  | nil => rfl
  | cons hfirst _ ih => rw [List.map_cons, List.map_cons, ih, (resolveProperty_ok hfirst).1]

theorem resolveProperties_hasProperties {page : Option DocPage} {overrides : OverrideLookup}
    {fields : ObjectSchema} {keep : PairedField → Bool} {selected : FieldSchema → Prop}
    {properties : List Property} (keys : Ascending fields)
    (inner : ∀ key f, (key, f) ∈ fields → ∀ override type,
      typeOf package owner position (pairField key override f) = .ok type → f.HasType package position type)
    (hkeep : ∀ f, keep f = true ↔ selected f.schema)
    (h : resolveProperties package owner position page ((pairObject overrides fields).filter keep) =
      .ok properties) :
    ObjectSchema.HasProperties package position selected fields properties where
  sorted := by
    have hkept : ((pairObject overrides fields).filter keep).Sublist (pairObject overrides fields) :=
      List.filter_sublist
    have hkeys := (hkept.map (fun f => f.key)).trans (keys_pairObject overrides fields)
    rw [← resolveProperties_rawNames h] at hkeys
    exact List.pairwise_map.mp (keys.sublist hkeys)
  each := by
    intro p hp
    obtain ⟨f, hf, hproperty⟩ := exists_of_mem_of_mapM_eq_ok h hp
    obtain ⟨hmem, hselected⟩ := List.mem_filter.mp hf
    obtain ⟨key, schema, hfield, hactive, rfl⟩ := mem_pairObject.mp hmem
    obtain ⟨hrawName, hposition, htype⟩ := resolveProperty_ok hproperty
    rw [key_pairField] at hrawName
    rw [hkeep, schema_pairField] at hselected
    exact .intro (hrawName ▸ hfield) hactive hselected hposition (inner key schema hfield _ _ htype)
  complete := by
    intro key f hfield hactive hselected
    have hpaired : pairField key (overrides key) f ∈ (pairObject overrides fields).filter keep := by
      rw [List.mem_filter, mem_pairObject, hkeep, schema_pairField]
      exact ⟨⟨key, f, hfield, hactive, rfl⟩, hselected⟩
    have hkey := List.mem_map_of_mem (f := fun f : PairedField => f.key) hpaired
    rw [← resolveProperties_rawNames h, key_pairField] at hkey
    exact List.mem_map.mp hkey

theorem Element.HasType.collection {kind : CollectionKind} {element : Element} {traits : FieldTraits}
    {inner type : TypeRef} {isSingle : Bool} (hinner : element.HasType package position inner)
    (h : (match kind with
      | .map => pure (.map inner)
      | _ => pure (if isSingle then inner else .array inner) : Except ResolveError TypeRef) = .ok type) :
    (FieldSchema.collection kind element traits).HasType package position type := by
  have hordinary (kind : CollectionKind) (hkind : kind ≠ .map) :
      (FieldSchema.collection kind element traits).HasType package position
        (if isSingle then inner else .array inner) := by
    split
    · exact .single hkind hinner
    · exact .array hkind hinner
  cases kind with
  | map =>
    cases h
    exact .map hinner
  | list =>
    cases h
    exact hordinary .list (by decide)
  | set =>
    cases h
    exact hordinary .set (by decide)

theorem decide_settable_iff (f : PairedField) :
    decide (position = .output ∨ f.schema.isInput = true) = true ↔ f.schema.SettableAt position := by
  cases position <;> simp [FieldSchema.SettableAt]

theorem typeOf_hasType {f : FieldSchema} (hordered : f.Ordered) {key : String}
    {override : Option FieldOverride} {type : TypeRef}
    (h : typeOf package owner position (pairField key override f) = .ok type) :
    f.HasType package position type := by
  induction f generalizing key owner override type with
  | scalar kind traits =>
    rw [pairField, typeOf] at h
    split at h
    · next hoverridden => exact overriddenType?_hasType hoverridden h _
    · cases h
      exact .scalar
  | field kind f traits ih =>
    cases hordered with | collection inner =>
    cases inner with | field inner =>
    rw [pairField, typeOf] at h
    split at h
    · next hoverridden => exact overriddenType?_hasType hoverridden h _
    · obtain ⟨type, htype, h⟩ := bind_eq_ok.mp h
      rw [pairElement, elementType] at htype
      exact Element.HasType.collection (.field (ih inner htype)) h
  | object kind fields traits ih =>
    cases hordered with | collection inner =>
    cases inner with | object keys inner =>
    rw [pairField, typeOf] at h
    split at h
    · next hoverridden => exact overriddenType?_hasType hoverridden h _
    · obtain ⟨type, htype, h⟩ := bind_eq_ok.mp h
      rw [pairElement, elementType] at htype
      obtain ⟨properties, hproperties, htype⟩ := bind_eq_ok.mp htype
      cases htype
      rw [nestedProperties_eq] at hproperties
      have hall := resolveProperties_hasProperties keys
        (fun key f hf _ _ htype => ih key f hf (inner _ hf) htype) decide_settable_iff hproperties
      exact Element.HasType.collection (.object hall.sorted hall.each hall.complete) h

theorem propertyObjects_eq (properties : List Property) :
    propertyObjects properties = properties.flatMap (fun p => p.type.objects) := by
  induction properties with
  | nil => rfl
  | cons p rest ih =>
    rw [propertyObjects, ih, List.flatMap_cons]
    cases p
    rfl

def ObjectType.SortedAt (position : Position) (o : ObjectType) : Prop :=
  o.properties.Pairwise (fun p q => p.rawName < q.rawName) ∧ ∀ p ∈ o.properties, p.position = position

/-- Induction over the types of fields, for what holds of a type that an override gives, and of any
other type if it holds of all types inside. -/
theorem FieldSchema.HasType.nestedInduction {motive : TypeRef → Prop}
    (custom : ∀ token altTypes, token.package = package → (∀ t ∈ altTypes, t.package = package) →
      motive (.custom ⟨token, altTypes⟩))
    (asset : ∀ kind, motive (.asset kind)) (scalar : ∀ kind, motive (scalarType kind))
    (map : ∀ type, motive type → motive (.map type)) (array : ∀ type, motive type → motive (.array type))
    (object : ∀ name properties, properties.Pairwise (fun p q => p.rawName < q.rawName) →
      (∀ p ∈ properties, p.position = position ∧ motive p.type) → motive (.object ⟨name, properties⟩))
    {f : FieldSchema} {type : TypeRef} (h : f.HasType package position type) : motive type := by
  have hcollection {kind : CollectionKind} {element : Element} {traits : FieldTraits} {type : TypeRef}
      (hinner : ∀ inner, element.HasType package position inner → motive inner)
      (h : (FieldSchema.collection kind element traits).HasType package position type) : motive type := by
    cases h with
    | custom own ownAlternatives => exact custom _ _ own ownAlternatives
    | asset => exact asset _
    | map inner => exact map _ (hinner _ inner)
    | array _ inner => exact array _ (hinner _ inner)
    | single _ inner => exact hinner _ inner
  induction f generalizing type with
  | scalar kind traits =>
    cases h with
    | custom own ownAlternatives => exact custom _ _ own ownAlternatives
    | asset => exact asset _
    | scalar => exact scalar kind
  | field kind f traits ih =>
    refine hcollection (fun inner hinner => ?_) h
    cases hinner with | field hinner =>
    exact ih hinner
  | object kind fields traits ih =>
    refine hcollection (fun inner hinner => ?_) h
    cases hinner with | @object _ name properties sorted each _ =>
    refine object name properties sorted (fun p hp => ?_)
    cases each p hp with | intro field _ _ samePosition type =>
    exact ⟨samePosition, ih _ _ field type⟩

/-- So do all object types that the type of a field nests, at whatever depth. -/
theorem FieldSchema.HasType.objects {f : FieldSchema} {type : TypeRef} (h : f.HasType package position type) :
    ∀ o ∈ type.objects, o.SortedAt position := by
  refine h.nestedInduction (motive := fun type => ∀ o ∈ type.objects, o.SortedAt position) (fun _ _ _ _ => ?_)
    (fun _ => ?_) (fun kind => ?_) (fun type ih => ?_) (fun type ih => ?_)
    (fun name properties sorted each => ?_)
  · simp [TypeRef.objects]
  · simp [TypeRef.objects]
  · cases kind <;> simp [scalarType, TypeRef.objects]
  · simpa only [TypeRef.objects] using ih
  · simpa only [TypeRef.objects] using ih
  · intro o ho
    rw [TypeRef.objects, ObjectType.innerObjects, propertyObjects_eq] at ho
    rcases List.mem_cons.mp ho with rfl | ho
    · exact ⟨sorted, fun p hp => (each p hp).1⟩
    · obtain ⟨p, hp, ho⟩ := List.mem_flatMap.mp ho
      exact (each p hp).2 o ho

theorem ObjectSchema.HasProperties.objects {selected : FieldSchema → Prop} {fields : ObjectSchema}
    {properties : List Property} (h : fields.HasProperties package position selected properties) :
    ∀ o ∈ propertyObjects properties, o.SortedAt position := by
  intro o ho
  rw [propertyObjects_eq] at ho
  obtain ⟨p, hp, ho⟩ := List.mem_flatMap.mp ho
  cases h.each p hp with | intro _ _ _ _ type =>
  exact type.objects o ho

theorem ObjectSchema.Ordered.hasProperties {fields : ObjectSchema} (h : ObjectSchema.Ordered fields)
    {page : Option DocPage} {overrides : OverrideLookup} {keep : PairedField → Bool}
    {selected : FieldSchema → Prop}
    {properties : List Property} (hkeep : ∀ f, keep f = true ↔ selected f.schema)
    (hok : resolveProperties package owner position page ((pairObject overrides fields).filter keep) =
      .ok properties) :
    fields.HasProperties package position selected properties :=
  resolveProperties_hasProperties h.keys
    (fun _ _ hf _ _ htype => typeOf_hasType (h.inner _ hf) htype) hkeep hok

theorem ObjectSchema.Ordered.hasAllProperties {fields : ObjectSchema} (h : ObjectSchema.Ordered fields)
    {page : Option DocPage} {overrides : OverrideLookup} {properties : List Property}
    (hok : resolveProperties package owner position page (pairObject overrides fields) = .ok properties) :
    fields.HasProperties package position (fun _ => True) properties := by
  have hall : (pairObject overrides fields).filter (fun _ => true) = pairObject overrides fields := by simp
  rw [← hall] at hok
  exact h.hasProperties (fun _ => by simp) hok

/-- A resource comes from an item of a schema: its inputs are the fields that a user may set, its
outputs are all. Or it is the provider resource, whose inputs are the configuration. -/
inductive Resource.ProjectedFrom (package : String) (schema : ProviderSchema) (r : Resource) : Prop where
  | provider (own : r.isProvider = true)
      (inputs : schema.config.HasProperties package .input (fun _ => True) r.inputs)
        (outputs : r.outputs = [])
  | item {fields} (item : (r.rawName, fields) ∈ schema.resources) (own : r.isProvider = false)
      (inputs : fields.HasProperties package .input (fun f => f.isInput = true) r.inputs)
      (outputs : fields.HasProperties package .output (fun _ => True) r.outputs)

/-- A data source comes from an item of a schema: its arguments are the fields that a user may set,
its results are those that the provider computes. -/
inductive DataSource.ProjectedFrom (package : String) (schema : ProviderSchema) (f : DataSource) : Prop where
  | item {fields} (item : (f.rawName, fields) ∈ schema.dataSources)
      (arguments : fields.HasProperties package .input (fun f => f.isInput = true) f.arguments)
      (results : fields.HasProperties package .output (fun f => f.traits.computed = true) f.results)

/-- All that is resolved comes from a schema. There are no configuration variables if one of them
cannot be resolved. -/
structure ResolvedProvider.ProjectedFrom (package : String) (schema : ProviderSchema) (r : ResolvedProvider) :
    Prop where
  config : r.config = [] ∨ schema.config.HasProperties package .input (fun _ => True) r.config
  resources : ∀ resource ∈ r.resources, resource.ProjectedFrom package schema
  dataSources : ∀ dataSource ∈ r.dataSources, dataSource.ProjectedFrom package schema

variable {c : ResolveContext} {schema : ProviderSchema}

theorem resource_ok {item : PairedItem} {r : Resource} (h : (c.resource item).1 = .ok r) :
    r.rawName = item.rawName ∧ r.isProvider = false ∧ ∃ owner page,
      resolveProperties c.package owner .input page (item.fields.filter (fun f => f.schema.isInput)) =
        .ok r.inputs ∧
        resolveProperties c.package owner .output page item.fields = .ok r.outputs := by
  unfold ResolveContext.resource at h
  split at h
  · cases h
  · obtain ⟨inputs, hinputs, h⟩ := bind_eq_ok.mp h
    obtain ⟨outputs, houtputs, h⟩ := bind_eq_ok.mp h
    cases h
    exact ⟨rfl, rfl, _, _, hinputs, houtputs⟩

theorem dataSource_ok {item : PairedItem} {f : DataSource} (h : (c.dataSource item).1 = .ok f) :
    f.rawName = item.rawName ∧ ∃ owner page,
      resolveProperties c.package owner .input page (item.fields.filter (fun f => f.schema.isInput)) =
        .ok f.arguments ∧
        resolveProperties c.package owner .output page (item.fields.filter
          (fun f => f.schema.traits.computed)) =
          .ok f.results := by
  unfold ResolveContext.dataSource at h
  split at h
  · cases h
  · obtain ⟨arguments, harguments, h⟩ := bind_eq_ok.mp h
    obtain ⟨results, hresults, h⟩ := bind_eq_ok.mp h
    cases h
    exact ⟨rfl, _, _, harguments, hresults⟩

theorem resource_projectedFrom {overrides : List (String × ItemOverride)} {item : PairedItem} {r : Resource}
    (hordered : schema.Ordered) (hitem : item ∈ (pairItems .resource schema.resources overrides).1)
    (h : (c.resource item).1 = .ok r) : r.ProjectedFrom c.package schema := by
  obtain ⟨fields, o, hmem, _, _, hfields⟩ := mem_pairItems _ _ hitem
  have hinner := hordered.resources _ hmem
  obtain ⟨hname, hown, owner, page, hinputs, houtputs⟩ := resource_ok h
  rw [hfields] at hinputs houtputs
  exact .item (hname ▸ hmem) hown (hinner.hasProperties (fun _ => .rfl) hinputs)
    (hinner.hasAllProperties houtputs)

theorem dataSource_projectedFrom {overrides : List (String × ItemOverride)} {item : PairedItem}
    {f : DataSource} (hordered : schema.Ordered)
    (hitem : item ∈ (pairItems .dataSource schema.dataSources overrides).1)
    (h : (c.dataSource item).1 = .ok f) : f.ProjectedFrom c.package schema := by
  obtain ⟨fields, o, hmem, _, _, hfields⟩ := mem_pairItems _ _ hitem
  have hinner := hordered.dataSources _ hmem
  obtain ⟨hname, owner, page, harguments, hresults⟩ := dataSource_ok h
  rw [hfields] at harguments hresults
  exact .item (hname ▸ hmem) (hinner.hasProperties (fun _ => .rfl) harguments)
    (hinner.hasProperties (fun _ => .rfl) hresults)

theorem providerResource_projectedFrom {overrides : OverrideLookup} {r : Resource} (hordered : schema.Ordered)
    (h : c.providerResource (pairObject overrides schema.config) = .ok r) :
    r.ProjectedFrom c.package schema := by
  obtain ⟨inputs, hinputs, h⟩ := bind_eq_ok.mp h
  cases h
  exact .provider rfl (hordered.config.hasAllProperties hinputs) rfl

theorem mem_partitionResults {α : Type} {results : List (String × Except ResolveError α)} {a : α}
    (h : a ∈ (partitionResults results).1) : ∃ name, (name, .ok a) ∈ results := by
  induction results with
  | nil => simp [partitionResults] at h
  | cons result rest ih =>
    obtain ⟨name, result⟩ := result
    cases result with
    | error e =>
      obtain ⟨other, hmem⟩ := ih h
      exact ⟨other, List.mem_cons_of_mem _ hmem⟩
    | ok b =>
      rcases List.mem_cons.mp h with rfl | h
      · exact ⟨name, List.mem_cons_self⟩
      · obtain ⟨other, hmem⟩ := ih h
        exact ⟨other, List.mem_cons_of_mem _ hmem⟩

theorem resolved_resources (p : PairedProvider) (c : ResolveContext) : (p.resolve c).resolved.resources =
    (if p.config.isEmpty then [] else (partitionResults [("provider", c.providerResource p.config)]).1) ++
      (partitionResults (p.resourceResults c)).1 := by
  cases hconfig : p.config.isEmpty <;>
    simp [PairedProvider.resolve, PairedProvider.resourceResults, Function.comp_def, hconfig]

theorem resolved_dataSources (p : PairedProvider) (c : ResolveContext) :
    (p.resolve c).resolved.dataSources = (partitionResults (p.dataSourceResults c)).1 := by
  simp [PairedProvider.resolve, PairedProvider.dataSourceResults, Function.comp_def]

theorem mem_resolved_resources {p : PairedProvider} {c : ResolveContext} {r : Resource}
    (h : r ∈ (p.resolve c).resolved.resources) :
    c.providerResource p.config = .ok r ∨ ∃ item ∈ p.resources, (c.resource item).1 = .ok r := by
  rw [resolved_resources] at h
  rcases List.mem_append.mp h with h | h
  · split at h
    · cases h
    · obtain ⟨name, hresult⟩ := mem_partitionResults h
      obtain ⟨-, hprovider⟩ : name = "provider" ∧ .ok r = c.providerResource p.config := by
        simpa using hresult
      exact .inl hprovider.symm
  · obtain ⟨name, hresult⟩ := mem_partitionResults h
    obtain ⟨item, hitem, heq⟩ := List.mem_map.mp hresult
    exact .inr ⟨item, hitem, congrArg Prod.snd heq⟩

theorem mem_resolved_dataSources {p : PairedProvider} {c : ResolveContext} {f : DataSource}
    (h : f ∈ (p.resolve c).resolved.dataSources) : ∃ item ∈ p.dataSources, (c.dataSource item).1 = .ok f := by
  rw [resolved_dataSources] at h
  obtain ⟨name, hresult⟩ := mem_partitionResults h
  obtain ⟨item, hitem, heq⟩ := List.mem_map.mp hresult
  exact ⟨item, hitem, congrArg Prod.snd heq⟩

/-- The configuration is resolved, or there is an error about it and no variable. -/
theorem resolved_config (p : PairedProvider) (c : ResolveContext) :
    resolveProperties c.package "" .input none p.config = .ok (p.resolve c).resolved.config ∨
      (p.resolve c).resolved.config = [] ∧ ∃ e, ("config", e) ∈ (p.resolve c).failures := by
  cases hconfig : resolveProperties c.package "" .input none p.config with
  | error e =>
    right
    simp [PairedProvider.resolve, partitionResults, hconfig]
  | ok properties =>
    left
    simp [PairedProvider.resolve, partitionResults, hconfig]

/-- Whatever of an ordered document can be resolved comes from its schema. -/
theorem resolve_projectedFrom {d : Document} (hordered : d.provider.Ordered) (c : ResolveContext) :
    (d.paired.1.resolve c).resolved.ProjectedFrom c.package d.provider where
  config := by
    obtain hconfig | ⟨hnone, -⟩ := resolved_config d.paired.1 c
    · exact .inr (hordered.config.hasAllProperties hconfig)
    · exact .inl hnone
  resources := by
    intro r hr
    obtain hprovider | ⟨item, hitem, hr⟩ := mem_resolved_resources hr
    · exact providerResource_projectedFrom hordered hprovider
    · exact resource_projectedFrom hordered hitem hr
  dataSources := by
    intro f hf
    obtain ⟨item, hitem, hf⟩ := mem_resolved_dataSources hf
    exact dataSource_projectedFrom hordered hitem hf

/-- All object types of what is resolved, at whatever depth, have their properties in the order of
their raw names and in the position of the list that they are found in. -/
structure ResolvedProvider.ObjectsSorted (r : ResolvedProvider) : Prop where
  config : ∀ o ∈ propertyObjects r.config, o.SortedAt .input
  inputs : ∀ resource ∈ r.resources, ∀ o ∈ propertyObjects resource.inputs, o.SortedAt .input
  outputs : ∀ resource ∈ r.resources, ∀ o ∈ propertyObjects resource.outputs, o.SortedAt .output
  arguments : ∀ dataSource ∈ r.dataSources, ∀ o ∈ propertyObjects dataSource.arguments, o.SortedAt .input
  results : ∀ dataSource ∈ r.dataSources, ∀ o ∈ propertyObjects dataSource.results, o.SortedAt .output

theorem ResolvedProvider.ProjectedFrom.objectsSorted {r : ResolvedProvider}
    (h : r.ProjectedFrom package schema) :
    r.ObjectsSorted where
  config := by
    rcases h.config with hnone | hall
    · simp [hnone, propertyObjects]
    · exact hall.objects
  inputs := by
    intro resource hresource
    cases h.resources resource hresource with
    | provider _ inputs _ => exact inputs.objects
    | item _ _ inputs _ => exact inputs.objects
  outputs := by
    intro resource hresource
    cases h.resources resource hresource with
    | provider _ _ outputs => simp [outputs, propertyObjects]
    | item _ _ _ outputs => exact outputs.objects
  arguments := by
    intro dataSource hdataSource
    cases h.dataSources dataSource hdataSource with | item _ arguments _ =>
    exact arguments.objects
  results := by
    intro dataSource hdataSource
    cases h.dataSources dataSource hdataSource with | item _ _ results =>
    exact results.objects

namespace Compilation

/-- The objects of every loaded document have their fields in the order of the keys, and what a run
resolves of such a document has the form of its schema for the package of the run, so that object
types are sorted at all depths. -/
theorem run_projectedFrom (disk : Disk) (document : Document) (options : RunOptions) :
    (∀ source, Document.load source = .ok document → document.provider.Ordered) ∧
      ∀ c resolved, document.provider.Ordered → run disk document options = .ok c →
        c.resolved = some resolved →
        resolved.ProjectedFrom (start document options).packageName document.provider ∧
          resolved.ObjectsSorted := by
  refine ⟨fun source => Document.ordered_of_load, fun c resolved hordered hrun hresolved => ?_⟩
  by_cases hname : (start document options).packageName = ""
  · rw [run, if_pos hname] at hrun
    cases hrun
  · rw [run_eq_finished disk document options hname] at hrun
    cases hrun
    cases hresolved
    have hprojected := resolve_projectedFrom hordered ((start document options).resolveContext disk)
    exact ⟨hprojected, hprojected.objectsSorted⟩

/-- A list of objects below a resource, with a field that has a type of its own and alternatives to it. -/
def volumeDocument : Document where
  name := "acme"
  provider := {
    resources := [("acme_host",
      [("size", .scalar .int { required := true }),
        ("volume", .collection .list (.object [("id", .scalar .string { computed := true }),
          ("label", .scalar .string { optional := true })]) { optional := true })])] }
  resources := [("acme_host", {
    token := "acme:net:Host"
    fields := [("size", { type := some "acme:net:Size", altTypes := ["acme:net:Bytes"] })] })]

theorem volumeDocument_ordered : volumeDocument.provider.Ordered where
  config := ⟨List.Pairwise.nil, by simp [volumeDocument]⟩
  resources := by
    intro item hitem
    obtain rfl := List.mem_singleton.mp hitem
    refine ⟨by rw [Ascending]; decide, ?_⟩
    simp only [List.forall_mem_cons]
    refine ⟨.scalar, .collection (.object (by rw [Ascending]; decide) ?_), by simp⟩
    simp only [List.forall_mem_cons]
    exact ⟨.scalar, .scalar, by simp⟩
  dataSources := by simp [volumeDocument]

theorem volumeDocument_projectedFrom :
    ∃ c resolved, run default volumeDocument {} = .ok c ∧ c.resolved = some resolved ∧
      resolved.resources.map (fun r => (r.inputs.length, r.outputs.length)) = [(2, 2)] ∧
      (resolved.resources.flatMap (fun r => propertyObjects r.inputs)).map
        (fun o => o.properties.length) = [1] ∧
      resolved.ProjectedFrom "acme" volumeDocument.provider ∧ resolved.ObjectsSorted := by
  have hname : (start volumeDocument {}).packageName ≠ "" := by decide
  have hrun := run_eq_finished default volumeDocument {} hname
  refine ⟨_, _, hrun, rfl, by decide +kernel, by decide +kernel, ?_⟩
  exact (run_projectedFrom default volumeDocument {}).2 _ _ volumeDocument_ordered hrun rfl

end Compilation

end ProviderSdk
