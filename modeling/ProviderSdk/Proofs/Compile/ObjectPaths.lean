import ProviderSdk.Proofs.Compile.ObjectNames
import ProviderSdk.Proofs.Package.Printable
import ProviderSdk.Proofs.Text.Singulars
import ProviderSdk.Proofs.Text.SnakeKeys

/-!
# Paths of object types

An object type stands in the types of fields, one inside the other, and the keys of these fields,
from the outermost to its own, are its path. The name of a resolved object type is made from its
owner and its path, and from nothing else. Of each key it has the singular, which is its own
singular, so that it makes no difference whether the key is in the singular already.
-/

namespace ProviderSdk

mutual

def TypeRef.objectsOnPaths (key : String) : TypeRef → List (List String × ObjectType)
  | .array element => element.objectsOnPaths key
  | .map element => element.objectsOnPaths key
  | .object type => ([key], type) :: type.innerOnPaths.map (fun (path, o) => (key :: path, o))
  | _ => []
  termination_by structural t => t

def ObjectType.innerOnPaths : ObjectType → List (List String × ObjectType)
  | ⟨_, properties⟩ => objectsOnPaths properties
  termination_by structural t => t

def objectsOnPaths : List Property → List (List String × ObjectType)
  | [] => []
  | p :: rest => p.objectsOnPaths ++ objectsOnPaths rest
  termination_by structural ps => ps

def Property.objectsOnPaths : Property → List (List String × ObjectType)
  | ⟨rawName, _, type, _, _, _, _, _, _, _⟩ => type.objectsOnPaths rawName
  termination_by structural p => p

end

theorem objectsOnPaths_eq (ps : List Property) :
    objectsOnPaths ps = ps.flatMap (fun p => p.type.objectsOnPaths p.rawName) := by
  induction ps with
  | nil => rfl
  | cons p rest ih =>
    rw [objectsOnPaths, ih, List.flatMap_cons]
    cases p
    rfl

theorem TypeRef.map_snd_objectsOnPaths (key : String) (t : TypeRef) :
    (t.objectsOnPaths key).map Prod.snd = t.objects := by
  induction t generalizing key with
  | array element ih => exact ih key
  | map element ih => exact ih key
  | object type ih =>
    obtain ⟨name, properties⟩ := type
    have hinner (p : Property) (hp : p ∈ properties) :
        (p.type.objectsOnPaths p.rawName).map Prod.snd = p.type.objects :=
      ih p hp p.rawName
    rw [objectsOnPaths, objects, ObjectType.innerOnPaths, ObjectType.innerObjects, objectsOnPaths_eq,
      propertyObjects_eq, List.map_cons, List.map_map]
    congr 1
    rw [← List.flatMap_congr hinner, ← List.map_flatMap]
    rfl
  | bool | int | float | string | custom | asset => rfl

theorem TypeRef.path_ne_nil {key : String} {t : TypeRef} {path : List String} {o : ObjectType}
    (h : (path, o) ∈ t.objectsOnPaths key) : path ≠ [] := by
  induction t generalizing key path with
  | array element ih => exact ih h
  | map element ih => exact ih h
  | object type ih =>
    rw [objectsOnPaths] at h
    obtain heq | h := List.mem_cons.mp h
    · cases heq
      simp
    · obtain ⟨inner, -, heq⟩ := List.mem_map.mp h
      cases heq
      simp
  | bool | int | float | string | custom | asset => cases h

/-- What a key adds to the names of object types. -/
def objectWord (key : String) : String := Text.pascalCase (Text.singular key)

def pathName (position : Position) : (owner : String) → (path : List String) → String
  | owner, [] => owner
  | owner, [key] => objectTypeName owner key position
  | owner, key :: rest => pathName position (owner ++ objectWord key) rest

@[simp] theorem pathName_nil (position : Position) (owner : String) :
    pathName position owner [] = owner := rfl

@[simp] theorem pathName_singleton (position : Position) (owner key : String) :
    pathName position owner [key] = objectTypeName owner key position := rfl

theorem pathName_cons {position : Position} {owner key : String} {path : List String} (h : path ≠ []) :
    pathName position owner (key :: path) = pathName position (owner ++ objectWord key) path := by
  obtain ⟨second, rest, rfl⟩ := List.exists_cons_of_ne_nil h
  rfl

def TypeRef.NamedByPaths (position : Position) (owner key : String) (t : TypeRef) : Prop :=
  ∀ path o, (path, o) ∈ t.objectsOnPaths key → o.name = pathName position owner path

def NamedByPaths (owner : String) (ps : List Property) : Prop :=
  ∀ p ∈ ps, p.type.NamedByPaths p.position owner p.rawName

variable {package owner key : String} {position : Position}

theorem TypeRef.NamedByPaths.of_objects_eq_nil {t : TypeRef} (h : t.objects = []) :
    t.NamedByPaths position owner key := by
  intro path o ho
  have hmem := List.mem_map_of_mem (f := Prod.snd) ho
  rw [map_snd_objectsOnPaths, h] at hmem
  cases hmem

theorem objectsOnPaths_collection {kind : CollectionKind} {inner type : TypeRef} {isSingle : Bool}
    (h : (match kind with
      | .map => pure (.map inner)
      | _ => pure (if isSingle then inner else .array inner) : Except ResolveError TypeRef) = .ok type) :
    type.objectsOnPaths key = inner.objectsOnPaths key := by
  cases kind <;> cases isSingle <;> cases h <;> rfl

theorem namedByPaths_of_typeOf {page : Option DocPage} {fields : List PairedField} {ps : List Property}
    (hfields : ∀ f ∈ fields, ∀ type, typeOf package owner position f = .ok type →
      type.NamedByPaths position owner f.key)
    (h : resolveProperties package owner position page fields = .ok ps) : NamedByPaths owner ps := by
  intro p hp
  obtain ⟨f, hf, hresolve⟩ := exists_of_mem_of_mapM_eq_ok h hp
  obtain ⟨hkey, hposition, htype⟩ := resolveProperty_ok hresolve
  rw [hkey, hposition]
  exact hfields f hf _ htype

theorem typeOf_namedByPaths {f : FieldSchema} {override : Option FieldOverride} {type : TypeRef}
    (h : typeOf package owner position (pairField key override f) = .ok type) :
    type.NamedByPaths position owner key := by
  induction f generalizing key owner override type with
  | scalar kind traits =>
    apply TypeRef.NamedByPaths.of_objects_eq_nil
    rw [pairField, typeOf] at h
    split at h
    · next hoverridden => exact objects_overriddenType? hoverridden h
    · cases h
      cases kind <;> rfl
  | field kind f traits ih =>
    rw [pairField, typeOf] at h
    split at h
    · next hoverridden => exact .of_objects_eq_nil (objects_overriddenType? hoverridden h)
    · obtain ⟨inner, hinner, h⟩ := bind_eq_ok.mp h
      rw [pairElement, elementType] at hinner
      rw [TypeRef.NamedByPaths, objectsOnPaths_collection h]
      exact ih hinner
  | object kind fields traits ih =>
    rw [pairField, typeOf] at h
    split at h
    · next hoverridden => exact .of_objects_eq_nil (objects_overriddenType? hoverridden h)
    · obtain ⟨inner, hinner, h⟩ := bind_eq_ok.mp h
      rw [pairElement, elementType] at hinner
      obtain ⟨ps, hps, hinner⟩ := bind_eq_ok.mp hinner
      cases hinner
      rw [nestedProperties_eq] at hps
      have hdeep : NamedByPaths (owner ++ objectWord key) ps := by
        refine namedByPaths_of_typeOf (fun g hg type htype => ?_) hps
        obtain ⟨key', schema, hmem, -, rfl⟩ := mem_pairObject.mp (List.mem_filter.mp hg).1
        rw [key_pairField]
        exact ih key' schema hmem htype
      intro path o ho
      rw [objectsOnPaths_collection h, TypeRef.objectsOnPaths, ObjectType.innerOnPaths, objectsOnPaths_eq]
        at ho
      obtain heq | ho := List.mem_cons.mp ho
      · cases heq
        rfl
      · obtain ⟨⟨path, o⟩, hmem, heq⟩ := List.mem_map.mp ho
        cases heq
        obtain ⟨p, hp, hmem⟩ := List.mem_flatMap.mp hmem
        rw [pathName_cons (TypeRef.path_ne_nil hmem), hdeep p hp path o hmem]
        obtain ⟨g, -, hresolve⟩ := exists_of_mem_of_mapM_eq_ok hps hp
        rw [(resolveProperty_ok hresolve).2.1]

theorem FieldsPaired.namedByPaths {fields : List PairedField} (hfields : FieldsPaired fields)
    {page : Option DocPage} {ps : List Property}
    (h : resolveProperties package owner position page fields = .ok ps) : NamedByPaths owner ps := by
  refine namedByPaths_of_typeOf (fun f hf type htype => ?_) h
  obtain ⟨key, override, schema, rfl⟩ := hfields f hf
  rw [key_pairField]
  exact typeOf_namedByPaths htype

theorem NamedByPaths.append {ps qs : List Property} (h : NamedByPaths owner ps) (h' : NamedByPaths owner qs) :
    NamedByPaths owner (ps ++ qs) :=
  List.forall_mem_append.mpr ⟨h, h'⟩

/-- The singular of a key has words that begin with letters, so that they are told apart by their capitals. -/
def Spelled (key : String) : Prop := ∀ w ∈ Text.keyWords (Text.singular key), Text.IsLetterWord w

instance (key : String) : Decidable (Spelled key) := inferInstanceAs (Decidable (∀ _ ∈ _, _))

/-- The words of the name at the end of a path, behind those of the owner. The name of an input has
a word more, before those of the last key. -/
def spelling (position : Position) : List String → List (List Char)
  | [] => []
  | [key] => (if position = .input then ["args".toList] else []) ++ Text.keyWords (Text.singular key)
  | key :: rest => Text.keyWords (Text.singular key) ++ spelling position rest

@[simp] theorem spelling_nil (position : Position) : spelling position [] = [] := rfl

@[simp] theorem spelling_singleton (position : Position) (key : String) : spelling position [key] =
    (if position = .input then ["args".toList] else []) ++ Text.keyWords (Text.singular key) := rfl

theorem spelling_cons {path : List String} (h : path ≠ []) :
    spelling position (key :: path) = Text.keyWords (Text.singular key) ++ spelling position path := by
  obtain ⟨second, rest, rfl⟩ := List.exists_cons_of_ne_nil h
  rfl

theorem isLetterWord_spelling {path : List String} (h : ∀ key ∈ path, Spelled key) :
    ∀ w ∈ spelling position path, Text.IsLetterWord w := by
  have hargs : ∀ w ∈ if position = .input then ["args".toList] else [], Text.IsLetterWord w := by
    split <;> decide
  induction path with
  | nil => simp
  | cons key rest ih =>
    obtain ⟨hkey, hrest⟩ := List.forall_mem_cons.mp h
    cases rest with
    | nil => exact List.forall_mem_append.mpr ⟨hargs, hkey⟩
    | cons second rest =>
      rw [spelling_cons (List.cons_ne_nil _ _)]
      exact List.forall_mem_append.mpr ⟨hkey, ih hrest⟩

theorem toList_objectWord (h : Spelled key) :
    (objectWord key).toList = (Text.keyWords (Text.singular key)).flatMap Text.capitalized := by
  have hsnake : Text.InSnakeCase (Text.singular key) :=
    ⟨fun w hw => (h w hw).1, fun w hw => h w (List.mem_of_mem_tail hw)⟩
  rw [objectWord, Text.pascalCase, String.toList_ofList, Text.pascalChars, hsnake.splitWhere_isJoint]

theorem toList_pathName {path : List String} (howner : owner ≠ "") (h : ∀ key ∈ path, Spelled key) :
    (pathName position owner path).toList =
      owner.toList ++ (spelling position path).flatMap Text.capitalized := by
  have hargs : "Args".toList = ["args".toList].flatMap Text.capitalized := by decide +kernel
  induction path generalizing owner with
  | nil => simp
  | cons key rest ih =>
    obtain ⟨hkey, hrest⟩ := List.forall_mem_cons.mp h
    cases rest with
    | nil =>
      rw [pathName_singleton, objectTypeName, ← objectWord, spelling_singleton, List.flatMap_append,
        ← toList_objectWord hkey]
      cases position with
      | input => rw [if_pos ⟨rfl, howner⟩, if_pos rfl, String.toList_append, String.toList_append, hargs,
        List.append_assoc]
      | output => simp
    | cons second rest =>
      have hinner : owner ++ objectWord key ≠ "" :=
        fun hempty => howner (String.append_eq_empty_iff.mp hempty).1
      rw [pathName_cons (List.cons_ne_nil _ _), ih hinner hrest, spelling_cons (List.cons_ne_nil _ _),
        String.toList_append, List.flatMap_append, toList_objectWord hkey, List.append_assoc]

/-- Two paths below one owner have one name exactly if they have one spelling. -/
theorem pathName_inj {position' : Position} {path path' : List String} (howner : owner ≠ "")
    (h : ∀ key ∈ path, Spelled key) (h' : ∀ key ∈ path', Spelled key) :
    pathName position owner path = pathName position' owner path' ↔
      spelling position path = spelling position' path' := by
  rw [← String.toList_inj, toList_pathName howner h, toList_pathName howner h', List.append_right_inj,
    Text.flatMap_capitalized_inj (isLetterWord_spelling h) (isLetterWord_spelling h')]

def ResolvedProvider.members (r : ResolvedProvider) : List Member :=
  r.resources.map .resource ++ r.dataSources.map .dataSource

/-- The object types of a resource or data source are named after its class and their paths. -/
def Member.ObjectsOnPaths : Member → Prop
  | .resource r => NamedByPaths r.name (r.inputs ++ r.outputs)
  | .dataSource f => NamedByPaths (Text.upperFirst f.name) (f.arguments ++ f.results)
  | _ => True

variable {c : ResolveContext} {item : PairedItem}

theorem resource_objectsOnPaths {r : Resource} (hfields : FieldsPaired item.fields)
    (h : (c.resource item).1 = .ok r) : (Member.resource r).ObjectsOnPaths := by
  unfold ResolveContext.resource at h
  split at h
  · cases h
  · obtain ⟨inputs, hinputs, h⟩ := bind_eq_ok.mp h
    obtain ⟨outputs, houtputs, h⟩ := bind_eq_ok.mp h
    cases h
    exact ((hfields.filter _).namedByPaths hinputs).append (hfields.namedByPaths houtputs)

theorem dataSource_objectsOnPaths {f : DataSource} (hfields : FieldsPaired item.fields)
    (h : (c.dataSource item).1 = .ok f) : (Member.dataSource f).ObjectsOnPaths := by
  unfold ResolveContext.dataSource at h
  split at h
  · cases h
  · obtain ⟨arguments, harguments, h⟩ := bind_eq_ok.mp h
    obtain ⟨results, hresults, h⟩ := bind_eq_ok.mp h
    cases h
    exact ((hfields.filter _).namedByPaths harguments).append ((hfields.filter _).namedByPaths hresults)

theorem providerResource_objectsOnPaths {config : List PairedField} {r : Resource}
    (hfields : FieldsPaired config) (h : c.providerResource config = .ok r) :
    (Member.resource r).ObjectsOnPaths := by
  obtain ⟨inputs, hinputs, h⟩ := bind_eq_ok.mp h
  cases h
  exact (hfields.namedByPaths hinputs).append (fun p hp => by cases hp)

/-- Whatever is resolved of a document has object types that are named after its class and their paths. -/
theorem Document.objectsOnPaths_of_mem_resolved {d : Document} {member : Member}
    (h : member ∈ (d.paired.1.resolve c).resolved.members) : member.ObjectsOnPaths := by
  have hpaired := d.fieldsPaired_paired
  obtain h | h := List.mem_append.mp h
  · obtain ⟨r, hr, rfl⟩ := List.mem_map.mp h
    obtain hprovider | ⟨item, hitem, hr⟩ := mem_resolved_resources hr
    · exact providerResource_objectsOnPaths hpaired.config hprovider
    · exact resource_objectsOnPaths (hpaired.resources item hitem) hr
  · obtain ⟨f, hf, rfl⟩ := List.mem_map.mp h
    obtain ⟨item, hitem, hf⟩ := mem_resolved_dataSources hf
    exact dataSource_objectsOnPaths (hpaired.dataSources item hitem) hf

/-- So have the configuration variables, without an owner. -/
theorem Document.config_namedByPaths (d : Document) (c : ResolveContext) :
    NamedByPaths "" (d.paired.1.resolve c).resolved.config := by
  obtain hconfig | ⟨hnone, -⟩ := resolved_config d.paired.1 c
  · exact d.fieldsPaired_paired.config.namedByPaths hconfig
  · rw [hnone]
    intro p hp
    cases hp

open Text (singular singular_singular cutSingular? cutSingular?_eq)

theorem objectWord_singular (key : String) : objectWord (singular key) = objectWord key := by
  rw [objectWord, singular_singular, objectWord]

theorem objectTypeName_singular (owner key : String) (position : Position) :
    objectTypeName owner (singular key) position = objectTypeName owner key position := by
  rw [objectTypeName, singular_singular, objectTypeName]

/-- The type of a field, with the names of all object types in it, is that under the singular of its key. -/
theorem typeOf_pairField_singular (package owner key : String) (position : Position)
    (override : Option FieldOverride) (f : FieldSchema) :
    typeOf package owner position (pairField (singular key) override f) =
      typeOf package owner position (pairField key override f) := by
  induction f generalizing override with
  | scalar kind traits => rfl
  | field kind f traits ih =>
    have helement := ih (override.bind (fun o => o.element))
    simp only [pairField, pairElement, typeOf, elementType, helement]
  | object kind fields traits =>
    simp only [pairField, pairElement, typeOf, elementType, singular_singular, objectTypeName_singular]

theorem pathName_map_singular (owner : String) (position : Position) (path : List String) :
    pathName position owner (path.map singular) = pathName position owner path := by
  induction path generalizing owner with
  | nil => rfl
  | cons key rest ih =>
    cases rest with
    | nil => exact objectTypeName_singular owner key position
    | cons second rest =>
      rw [List.map_cons, pathName_cons (by simp), pathName_cons (List.cons_ne_nil _ _), ih,
        objectWord_singular]

/-- A noun is cut between its characters, whatever small forms sigmas have in the copy that is
looked at, and what is left is its singular, which is its own singular. So the type of a field has
the same names in it if the key of the field is in the singular already, and a path of keys gives
the same name as the path of their singulars. -/
theorem singular_cuts_once :
    (∀ (endsWord : List Char → List Char → Bool) (noun : String),
      cutSingular? endsWord noun = some (singular noun)) ∧
    (∀ noun : String, singular (singular noun) = singular noun) ∧
    (∀ (package owner key : String) (position : Position) (override : Option FieldOverride) (f : FieldSchema),
      typeOf package owner position (pairField (singular key) override f) =
        typeOf package owner position (pairField key override f)) ∧
    ∀ (owner : String) (position : Position) (path : List String),
      pathName position owner (path.map singular) = pathName position owner path :=
  ⟨cutSingular?_eq, singular_singular, typeOf_pairField_singular, pathName_map_singular⟩

end ProviderSdk
