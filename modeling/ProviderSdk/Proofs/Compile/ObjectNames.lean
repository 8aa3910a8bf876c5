import ProviderSdk.Proofs.Compile.PropertyNames

/-!
# Names of object types

Object types are named after what they belong to. The name of each begins with the name of the
resource, or with the class of the data source, in whose properties it stands, at whatever depth.
Nothing else is known of it: what follows is made of the keys of fields, which may come to nothing.
-/

namespace ProviderSdk

/-- The names of all object types in properties, at whatever depth, begin with the name of an owner. -/
def NamedAfter (owner : String) (ps : List Property) : Prop :=
  ∀ o ∈ propertyObjects ps, owner.toList <+: o.name.toList

theorem NamedAfter.append {owner : String} {ps qs : List Property} (h : NamedAfter owner ps)
    (h' : NamedAfter owner qs) :
    NamedAfter owner (ps ++ qs) := by
  intro o ho
  rw [propertyObjects_eq, List.flatMap_append, ← propertyObjects_eq, ← propertyObjects_eq, List.mem_append]
    at ho
  exact ho.elim (h o) (h' o)

variable {package owner : String} {position : Position}

theorem begins_append (owner rest : String) : owner.toList <+: (owner ++ rest).toList := by
  rw [String.toList_append]
  exact List.prefix_append _ _

theorem begins_objectTypeName (owner key : String) (position : Position) :
    owner.toList <+: (objectTypeName owner key position).toList := by
  unfold objectTypeName
  dsimp only
  split
  · rw [String.append_assoc]
    exact begins_append _ _
  · exact begins_append _ _

theorem namedAfter_of_typeOf {page : Option DocPage} {fields : List PairedField} {ps : List Property}
    {name : String} (hfields : ∀ f ∈ fields, ∀ type, typeOf package owner position f = .ok type →
      ∀ o ∈ type.objects, name.toList <+: o.name.toList)
    (h : resolveProperties package owner position page fields = .ok ps) : NamedAfter name ps := by
  intro o ho
  rw [propertyObjects_eq] at ho
  obtain ⟨p, hp, ho⟩ := List.mem_flatMap.mp ho
  obtain ⟨f, hf, hresolve⟩ := exists_of_mem_of_mapM_eq_ok h hp
  obtain ⟨-, -, htype⟩ := resolveProperty_ok hresolve
  exact hfields f hf _ htype o ho

theorem typeOf_namedAfter {f : FieldSchema} {key : String} {override : Option FieldOverride} {type : TypeRef}
    (h : typeOf package owner position (pairField key override f) = .ok type) :
    ∀ o ∈ type.objects, owner.toList <+: o.name.toList := by
  induction f generalizing key owner override type with
  | scalar kind traits =>
    rw [pairField, typeOf] at h
    split at h
    · next hoverridden => simp [objects_overriddenType? hoverridden h]
    · cases h
      cases kind <;> simp [scalarType, TypeRef.objects]
  | field kind f traits ih =>
    rw [pairField, typeOf] at h
    split at h
    · next hoverridden => simp [objects_overriddenType? hoverridden h]
    · obtain ⟨inner, hinner, h⟩ := bind_eq_ok.mp h
      rw [pairElement, elementType] at hinner
      rw [objects_collection h]
      exact ih hinner
  | object kind fields traits ih =>
    rw [pairField, typeOf] at h
    split at h
    · next hoverridden => simp [objects_overriddenType? hoverridden h]
    · obtain ⟨inner, hinner, h⟩ := bind_eq_ok.mp h
      rw [pairElement, elementType] at hinner
      obtain ⟨ps, hps, hinner⟩ := bind_eq_ok.mp hinner
      cases hinner
      rw [nestedProperties_eq] at hps
      have hdeep : NamedAfter (owner ++ Text.pascalCase (Text.singular key)) ps := by
        refine namedAfter_of_typeOf (fun g hg type htype => ?_) hps
        obtain ⟨key', schema, hmem, -, rfl⟩ := mem_pairObject.mp (List.mem_filter.mp hg).1
        exact ih key' schema hmem htype
      rw [objects_collection h, TypeRef.objects, ObjectType.innerObjects]
      intro o ho
      rcases List.mem_cons.mp ho with rfl | ho
      · exact begins_objectTypeName owner key position
      · exact (begins_append _ _).trans (hdeep o ho)

theorem FieldsPaired.namedAfter {fields : List PairedField} (hfields : FieldsPaired fields)
    {page : Option DocPage} {ps : List Property}
    (h : resolveProperties package owner position page fields = .ok ps) : NamedAfter owner ps := by
  refine namedAfter_of_typeOf (fun f hf type htype => ?_) h
  obtain ⟨key, override, schema, rfl⟩ := hfields f hf
  exact typeOf_namedAfter htype

def Member.ObjectsNamed : Member → Prop
  | .resource r => NamedAfter r.name (r.inputs ++ r.outputs)
  | .dataSource f => NamedAfter (Text.upperFirst f.name) (f.arguments ++ f.results)
  | _ => True

variable {c : ResolveContext} {item : PairedItem}

theorem resource_objectsNamed {r : Resource} (hfields : FieldsPaired item.fields)
    (h : (c.resource item).1 = .ok r) : (Member.resource r).ObjectsNamed := by
  unfold ResolveContext.resource at h
  split at h
  · cases h
  · obtain ⟨inputs, hinputs, h⟩ := bind_eq_ok.mp h
    obtain ⟨outputs, houtputs, h⟩ := bind_eq_ok.mp h
    cases h
    exact ((hfields.filter _).namedAfter hinputs).append (hfields.namedAfter houtputs)

theorem dataSource_objectsNamed {f : DataSource} (hfields : FieldsPaired item.fields)
    (h : (c.dataSource item).1 = .ok f) : (Member.dataSource f).ObjectsNamed := by
  unfold ResolveContext.dataSource at h
  split at h
  · cases h
  · obtain ⟨arguments, harguments, h⟩ := bind_eq_ok.mp h
    obtain ⟨results, hresults, h⟩ := bind_eq_ok.mp h
    cases h
    exact ((hfields.filter _).namedAfter harguments).append ((hfields.filter _).namedAfter hresults)

theorem providerResource_objectsNamed {config : List PairedField} {r : Resource}
    (hfields : FieldsPaired config) (h : c.providerResource config = .ok r) :
    (Member.resource r).ObjectsNamed := by
  obtain ⟨inputs, hinputs, h⟩ := bind_eq_ok.mp h
  cases h
  exact (hfields.namedAfter hinputs).append (fun o ho => by cases ho)

namespace Compilation

variable (disk : Disk) (document : Document) (options : RunOptions)

/-- The object types of every member of an assembled package are named after its class. -/
theorem objectsNamed_of_mem_assembled {module : String} {member : Member}
    (h : (module, member) ∈ (assembled disk document options).1.placed) : member.ObjectsNamed := by
  have hpaired := document.fieldsPaired_paired
  obtain ⟨v, -, rfl⟩ | ⟨r, hr, rfl⟩ | ⟨f, hf, rfl⟩ | ⟨file, rfl⟩ := cases_of_mem_assembled h
  · trivial
  · obtain hprovider | ⟨item, hitem, hr⟩ := mem_resolved_resources hr
    · exact providerResource_objectsNamed hpaired.config hprovider
    · exact resource_objectsNamed (hpaired.resources item hitem) hr
  · obtain ⟨item, hitem, hf⟩ := mem_resolved_dataSources hf
    exact dataSource_objectsNamed (hpaired.dataSources item hitem) hf
  · trivial

end Compilation

end ProviderSdk
