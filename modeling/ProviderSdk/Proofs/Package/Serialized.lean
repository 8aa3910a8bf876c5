import ProviderSdk.Package.Serialized
import ProviderSdk.Proofs.Json.Members
import ProviderSdk.Proofs.Json.Printing
import ProviderSdk.Proofs.Package.Printable

/-!
# Parts of packages as JSON

The JSON form of a part of a package determines the part up to what is not written. The members of
each object are taken apart by their keys; for types it goes by induction over their nesting.
-/

namespace ProviderSdk

namespace Serialized

section

variable {α : Type} (key k : String)

@[simp] theorem lookup_unless (c : Prop) [Decidable c] (value : α) :
    (if c then [] else [(key, value)]).lookup k =
      if k = key then (if c then none else some value) else none := by
  split
  · simp
  · exact Json.lookup_cons_ite k key value []

@[simp] theorem lookup_textUnlessEmpty (s : String) :
    (textUnlessEmpty key s).lookup k = if k = key then (if s = "" then none else some (.str s)) else none :=
  lookup_unless key k _ _

@[simp] theorem lookup_ifPresent (f : α → Json) (value : Option α) :
    (ifPresent key f value).lookup k = if k = key then value.map f else none := by
  cases value with
  | none => simp [ifPresent]
  | some a => exact Json.lookup_cons_ite k key (f a) []

@[simp] theorem lookup_ifTrue (b : Bool) :
    (ifTrue key b).lookup k = if k = key then (if b then some (.bool true) else none) else none := by
  cases b with
  | false => simp [ifTrue]
  | true => exact Json.lookup_cons_ite k key _ []

end

/-- A value that is left out only if it is the empty one is determined by what is written. -/
theorem unless_inj {α : Type} {f : α → Json} (hf : Function.Injective f) (empty : α) {a b : α} {c c' : Prop}
    [Decidable c] [Decidable c'] (ha : c → a = empty) (hb : c' → b = empty)
    (h : (if c then none else some (f a)) = if c' then none else some (f b)) : a = b := by
  split at h
  · next hc =>
    split at h
    · next hc' => exact (ha hc).trans (hb hc').symm
    · cases h
  · split at h
    · cases h
    · exact hf (Option.some.inj h)

theorem flag_inj {b b' : Bool}
    (h : (if b then some (Json.bool true) else none) = if b' then some (.bool true) else none) :
    b = b' := by
  cases b <;> cases b' <;> first | rfl | cases h

theorem str_injective : Function.Injective Json.str := fun _ _ => Json.str.inj

theorem texts_injective : Function.Injective Json.texts :=
  fun _ _ h => List.map_injective_iff.mpr str_injective (Json.arr.inj h)

theorem literal_injective : Function.Injective literal := by
  intro l l' h
  cases l <;> cases l' <;> simp_all [literal]

theorem defaultValue_injective : Function.Injective defaultValue := by
  intro d d' h
  have hfield (key : String) := congrArg (List.lookup key) (Json.obj.inj h)
  simp only [List.lookup_append, lookup_ifPresent, lookup_unless, lookup_ifTrue] at hfield
  have hliteral : d.literal.map literal = d'.literal.map literal := by simpa using hfield "literal"
  have henvVars : d.envVars = d'.envVars := by
    refine unless_inj texts_injective [] id id ?_
    simpa using hfield "envVars"
  have hcomputed : d.computed = d'.computed := by
    refine flag_inj ?_
    simpa using hfield "computed"
  cases d
  cases d'
  exact DefaultValue.mk.injEq .. ▸ ⟨Option.map_injective literal_injective hliteral, henvVars, hcomputed⟩

variable {p q : Property}

/-- A property is determined by its JSON form as far as its type is. -/
theorem property_inj (htype : typeRef p.type = typeRef q.type → p.type.bare = q.type.bare)
    (h : property p = property q) :
    p.bare = q.bare := by
  obtain ⟨rawName, name, type, optional, doc, description, default, deprecation, secret, position⟩ := p
  obtain ⟨rawName', name', type', optional', doc', description', default', deprecation',
    secret', position'⟩ := q
  rw [property, property] at h
  have hfield (key : String) := congrArg (List.lookup key) (Json.obj.inj h)
  simp only [List.lookup_append, lookup_textUnlessEmpty, lookup_ifPresent, lookup_ifTrue,
    Json.lookup_cons_ite, List.lookup_nil] at hfield
  have hrawName : rawName = rawName' := by simpa using hfield "rawName"
  have hname : name = name' := by simpa using hfield "name"
  have htypes : typeRef type = typeRef type' := by simpa using hfield "type"
  have hoptional : optional = optional' := by simpa using hfield "optional"
  have hdoc : doc = doc' := by
    refine unless_inj str_injective "" id id ?_
    simpa using hfield "doc"
  have hdefault : default.map defaultValue = default'.map defaultValue := by simpa using hfield "default"
  have hdeprecation : deprecation.map Json.str = deprecation'.map Json.str := by
    simpa using hfield "deprecation"
  have hsecret : secret = secret' := by
    refine flag_inj ?_
    simpa using hfield "secret"
  rw [Property.bare, Property.bare, hrawName, hname, htype htypes, hoptional, hdoc,
    Option.map_injective defaultValue_injective hdefault,
    Option.map_injective str_injective hdeprecation, hsecret]

/-- If lists are written alike, what the form of each value determines is the same. -/
theorem map_eq_of_map_eq {α β γ : Type} {form : α → β} (told : α → γ) {as bs : List α}
    (h : ∀ a ∈ as, ∀ b ∈ bs, form a = form b → told a = told b) (heq : as.map form = bs.map form) :
    as.map told = bs.map told := by
  induction as generalizing bs with
  | nil =>
    cases bs with
    | nil => rfl
    | cons b bs => cases heq
  | cons a as ih =>
    cases bs with
    | nil => cases heq
    | cons b bs =>
      obtain ⟨hfirst, hrest⟩ := List.cons.inj heq
      rw [List.map_cons, List.map_cons, h a List.mem_cons_self b List.mem_cons_self hfirst,
        ih (fun a ha b hb => h a (List.mem_cons_of_mem _ ha) b (List.mem_cons_of_mem _ hb)) hrest]

theorem properties_eq (ps : List Property) : properties ps = ps.map property := by
  induction ps with
  | nil => rfl
  | cons p rest ih => rw [properties, ih, List.map_cons]

def tag : TypeRef → String
  | .bool => "bool"
  | .int => "int"
  | .float => "float"
  | .string => "string"
  | .array _ => "array"
  | .map _ => "map"
  | .object _ => "object"
  | .custom _ => "custom"
  | .asset _ => "asset"

theorem tag_eq {t u : TypeRef} (h : typeRef t = typeRef u) : tag t = tag u := by
  have htag (t : TypeRef) : (typeRef t).member? "type" = some (.str (tag t)) := by cases t <;> rfl
  have heq := congrArg (Json.member? "type") h
  rw [htag, htag] at heq
  exact Json.str.inj (Option.some.inj heq)

theorem tagged_inj (type : String) {content content' : Json}
    (h : tagged type content = tagged type content') :
    content = content' := by
  simpa [tagged] using h

theorem objectType_eq (type : ObjectType) :
    objectType type = .obj [("name", .str type.name),
      ("properties", .arr (type.properties.map property))] := by
  cases type
  rw [objectType, properties_eq]

/-- A type is determined by its JSON form. -/
theorem typeRef_inj {t u : TypeRef} (ht : t.Printable) (hu : u.Printable) (h : typeRef t = typeRef u) :
    t.bare = u.bare := by
  induction t generalizing u with
  | bool | int | float | string =>
    have htag := tag_eq h
    cases u <;> first | rfl | exact absurd htag (by simp [tag])
  | array element ih =>
    have htag := tag_eq h
    cases u with
    | array element' => exact congrArg TypeRef.array (ih ht hu (tagged_inj "array" h))
    | _ => exact absurd htag (by simp [tag])
  | map element ih =>
    have htag := tag_eq h
    cases u with
    | map element' => exact congrArg TypeRef.map (ih ht hu (tagged_inj "map" h))
    | _ => exact absurd htag (by simp [tag])
  | object type ih =>
    have htag := tag_eq h
    cases u with
    | object type' =>
      have hcontent := tagged_inj "object" h
      rw [objectType_eq, objectType_eq] at hcontent
      simp only [Json.obj.injEq, List.cons.injEq, Prod.mk.injEq, Json.str.injEq, Json.arr.injEq,
        true_and, and_true]
        at hcontent
      obtain ⟨hname, hproperties⟩ := hcontent
      have hps := map_eq_of_map_eq Property.bare (fun p hp q hq => property_inj
        (ih p hp (Property.printable_iff.mp (ht.properties p hp)).1
          (Property.printable_iff.mp (hu.properties q hq)).1))
        hproperties
      refine congrArg TypeRef.object ?_
      rw [ObjectType.bare_eq, ObjectType.bare_eq, hname, hps]
    | _ => exact absurd htag (by simp [tag])
  | custom type =>
    have htag := tag_eq h
    cases u with
    | custom type' =>
      have hcontent := tagged_inj "custom" h
      simp only [Json.obj.injEq, List.cons.injEq, Prod.mk.injEq, Json.str.injEq, Json.arr.injEq,
        true_and, and_true, token]
        at hcontent
      obtain ⟨htoken, htokens⟩ := hcontent
      have halt := map_eq_of_map_eq id
        (fun a ha b hb heq => (ht.2 a ha).render_inj (hu.2 b hb) (Json.str.inj heq)) htokens
      rw [List.map_id, List.map_id] at halt
      cases type
      cases type'
      exact congrArg TypeRef.custom (CustomType.mk.injEq .. ▸ ⟨ht.1.render_inj hu.1 htoken, halt⟩)
    | _ => exact absurd htag (by simp [tag])
  | asset kind =>
    have htag := tag_eq h
    cases u with
    | asset kind' =>
      cases kind <;> cases kind' <;> first | rfl | exact absurd (tagged_inj "asset" h) (by simp [assetKind])
    | _ => exact absurd htag (by simp [tag])

theorem property_inj_of_printable (hp : p.Printable) (hq : q.Printable) (h : property p = property q) :
    p.bare = q.bare :=
  property_inj (typeRef_inj (Property.printable_iff.mp hp).1 (Property.printable_iff.mp hq).1) h

/-- Properties are determined by their JSON forms. -/
theorem properties_inj {ps qs : List Property} (hps : ∀ p ∈ ps, p.Printable) (hqs : ∀ q ∈ qs, q.Printable)
    (h : properties ps = properties qs) : ps.map Property.bare = qs.map Property.bare := by
  rw [properties_eq, properties_eq] at h
  exact map_eq_of_map_eq Property.bare (fun p hp q hq => property_inj_of_printable (hps p hp) (hqs q hq)) h

/-- A resource is determined by its JSON form. -/
theorem resource_inj {r r' : Resource} (hr : (Member.resource r).Printable)
    (hr' : (Member.resource r').Printable) (h : resource r = resource r') : r.bare = r'.bare := by
  obtain ⟨token, name, rawName, fileStem, doc, inputs, outputs, isProvider, deleteBeforeReplace⟩ := r
  obtain ⟨token', name', rawName', fileStem', doc', inputs', outputs', isProvider', deleteBeforeReplace'⟩ :=
    r'
  obtain ⟨htoken, hprintable⟩ := hr
  obtain ⟨htoken', hprintable'⟩ := hr'
  obtain ⟨hinputsPrintable, houtputsPrintable⟩ := List.forall_mem_append.mp hprintable
  obtain ⟨hinputsPrintable', houtputsPrintable'⟩ := List.forall_mem_append.mp hprintable'
  have hfield (key : String) := congrArg (List.lookup key) (Json.obj.inj h)
  simp only [resourceMembers, List.lookup_append, lookup_textUnlessEmpty, lookup_ifTrue, Json.lookup_cons_ite,
    List.lookup_nil] at hfield
  have htokens : token.render = token'.render := by simpa [Serialized.token] using hfield "token"
  have hname : name = name' := by simpa using hfield "name"
  have hrawName : rawName = rawName' := by simpa using hfield "rawName"
  have hfileStem : fileStem = fileStem' := by simpa using hfield "fileStem"
  have hdoc : doc = doc' := by
    refine unless_inj str_injective "" id id ?_
    simpa using hfield "doc"
  have hinputs : properties inputs = properties inputs' := by simpa using hfield "inputProperties"
  have houtputs : properties outputs = properties outputs' := by simpa using hfield "outputProperties"
  have hprovider : isProvider = isProvider' := by
    refine flag_inj ?_
    simpa using hfield "isProvider"
  have hdelete : deleteBeforeReplace = deleteBeforeReplace' := by
    refine flag_inj ?_
    simpa using hfield "deleteBeforeReplace"
  rw [Resource.bare, Resource.bare, htoken.render_inj htoken' htokens, hname, hrawName, hfileStem, hdoc,
    properties_inj hinputsPrintable hinputsPrintable' hinputs,
    properties_inj houtputsPrintable houtputsPrintable' houtputs, hprovider, hdelete]

/-- A data source is determined by its JSON form. -/
theorem dataSource_inj {f f' : DataSource} (hf : (Member.dataSource f).Printable)
    (hf' : (Member.dataSource f').Printable) (h : dataSource f = dataSource f') : f.bare = f'.bare := by
  obtain ⟨token, name, rawName, fileStem, doc, arguments, results⟩ := f
  obtain ⟨token', name', rawName', fileStem', doc', arguments', results'⟩ := f'
  obtain ⟨htoken, hprintable⟩ := hf
  obtain ⟨htoken', hprintable'⟩ := hf'
  obtain ⟨hargumentsPrintable, hresultsPrintable⟩ := List.forall_mem_append.mp hprintable
  obtain ⟨hargumentsPrintable', hresultsPrintable'⟩ := List.forall_mem_append.mp hprintable'
  have hfield (key : String) := congrArg (List.lookup key) (Json.obj.inj h)
  simp only [dataSourceMembers, List.lookup_append, lookup_textUnlessEmpty, Json.lookup_cons_ite,
    List.lookup_nil] at hfield
  have htokens : token.render = token'.render := by simpa [Serialized.token] using hfield "token"
  have hname : name = name' := by simpa using hfield "name"
  have hrawName : rawName = rawName' := by simpa using hfield "rawName"
  have hfileStem : fileStem = fileStem' := by simpa using hfield "fileStem"
  have hdoc : doc = doc' := by
    refine unless_inj str_injective "" id id ?_
    simpa using hfield "doc"
  have harguments : properties arguments = properties arguments' := by simpa using hfield "args"
  have hresults : properties results = properties results' := by simpa using hfield "results"
  rw [DataSource.bare, DataSource.bare, htoken.render_inj htoken' htokens, hname, hrawName, hfileStem, hdoc,
    properties_inj hargumentsPrintable hargumentsPrintable' harguments,
    properties_inj hresultsPrintable hresultsPrintable' hresults]

theorem property_bare_of_type (htype : typeRef p.type.bare = typeRef p.type) :
    property p.bare = property p := by
  cases p
  rw [Property.bare, property, property, htype]

theorem typeRef_bare (t : TypeRef) : typeRef t.bare = typeRef t := by
  induction t with
  | array element ih => exact congrArg (tagged "array") ih
  | map element ih => exact congrArg (tagged "map") ih
  | object type ih =>
    refine congrArg (tagged "object") ?_
    rw [ObjectType.bare_eq, objectType_eq, objectType_eq, List.map_map]
    have hproperties : type.properties.map (property ∘ Property.bare) = type.properties.map property :=
      List.map_congr_left (fun p hp => property_bare_of_type (ih p hp))
    rw [hproperties]
  | bool | int | float | string | custom | asset => rfl

/-- The description and the position of a property are not written. -/
theorem property_bare (p : Property) : property p.bare = property p :=
  property_bare_of_type (typeRef_bare p.type)

theorem properties_bare (ps : List Property) : properties (ps.map Property.bare) = properties ps := by
  rw [properties_eq, properties_eq, List.map_map]
  exact List.map_congr_left (fun p _ => property_bare p)

theorem resource_bare (r : Resource) : resource r.bare = resource r := by
  simp only [resource, resourceMembers, Resource.bare, properties_bare]

theorem dataSource_bare (f : DataSource) : dataSource f.bare = dataSource f := by
  simp only [dataSource, dataSourceMembers, DataSource.bare, properties_bare]

def FiniteMembers (members : List (String × Json)) : Prop := ∀ m ∈ members, m.2.Finite

theorem FiniteMembers.append {ms ns : List (String × Json)} (h : FiniteMembers ms) (h' : FiniteMembers ns) :
    FiniteMembers (ms ++ ns) := List.forall_mem_append.mpr ⟨h, h'⟩

theorem finite_cons {key : String} {v : Json} {ms : List (String × Json)} (hv : v.Finite)
    (h : FiniteMembers ms) :
    FiniteMembers ((key, v) :: ms) := List.forall_mem_cons.mpr ⟨hv, h⟩

theorem finite_nil : FiniteMembers [] := by
  intro m hm
  cases hm

theorem finite_textUnlessEmpty (key s : String) : FiniteMembers (textUnlessEmpty key s) := by
  unfold textUnlessEmpty
  split
  · exact finite_nil
  · exact finite_cons (.str s) finite_nil

theorem finite_ifPresent {α : Type} {key : String} {f : α → Json} {value : Option α}
    (h : ∀ a, value = some a → (f a).Finite) : FiniteMembers (ifPresent key f value) := by
  cases value with
  | none => exact finite_nil
  | some a => exact finite_cons (h a rfl) finite_nil

theorem finite_ifTrue (key : String) (b : Bool) : FiniteMembers (ifTrue key b) := by
  cases b with
  | false => exact finite_nil
  | true => exact finite_cons (.bool true) finite_nil

theorem finite_map {α : Type} {f : α → Json} {as : List α} (h : ∀ a ∈ as, (f a).Finite) :
    (Json.arr (as.map f)).Finite :=
  .arr (List.forall_mem_map.mpr h)

theorem finite_texts (ss : List String) : (Json.texts ss).Finite := finite_map (fun s _ => .str s)

theorem finite_defaultValue {d : DefaultValue} (h : d.Finite) : (defaultValue d).Finite := by
  refine .obj (((finite_ifPresent (fun l hl => ?_)).append ?_).append (finite_ifTrue _ _))
  · have hfinite := h l hl
    cases l with
    | bool b => exact .bool b
    | int n => exact .int n
    | float x => exact .float hfinite
    | string s => exact .str s
  · split
    · exact finite_nil
    · exact finite_cons (finite_texts _) finite_nil

theorem finite_property_of_type (htype : (typeRef p.type).Finite) (hp : p.Printable) :
    (property p).Finite := by
  obtain ⟨rawName, name, type, optional, doc, description, default, deprecation, secret, position⟩ := p
  have hdefault := (Property.printable_iff.mp hp).2
  have hnamed : FiniteMembers [("rawName", .str rawName), ("name", .str name), ("type", typeRef type),
      ("optional", .bool optional)] :=
    finite_cons (.str _) (finite_cons (.str _) (finite_cons htype (finite_cons (.bool _) finite_nil)))
  rw [property]
  exact .obj ((((hnamed.append (finite_textUnlessEmpty _ _)).append
    (finite_ifPresent (fun d hd => finite_defaultValue (hdefault d hd)))).append
    (finite_ifPresent (fun s _ => .str s))).append (finite_ifTrue _ _))

theorem finite_typeRef {t : TypeRef} (ht : t.Printable) : (typeRef t).Finite := by
  have htagged {type : String} {content : Json} (h : content.Finite) : (tagged type content).Finite :=
    .obj (finite_cons (.str _) (finite_cons h finite_nil))
  have hplain (type : String) : (plain type).Finite := .obj (finite_cons (.str _) finite_nil)
  induction t with
  | bool | int | float | string => exact hplain _
  | array element ih => exact htagged (ih ht)
  | map element ih => exact htagged (ih ht)
  | object type ih =>
    refine htagged ?_
    rw [objectType_eq]
    refine .obj (finite_cons (.str _) (finite_cons (finite_map (fun p hp => ?_)) finite_nil))
    have hprintable := ht.properties p hp
    exact finite_property_of_type (ih p hp (Property.printable_iff.mp hprintable).1) hprintable
  | custom type =>
    exact htagged (.obj (finite_cons (.str _) (finite_cons
      (finite_map (fun t _ => .str t.render)) finite_nil)))
  | asset kind => cases kind <;> exact htagged (.str _)

theorem finite_property (hp : p.Printable) : (property p).Finite :=
  finite_property_of_type (finite_typeRef (Property.printable_iff.mp hp).1) hp

theorem finite_properties {ps : List Property} (hps : ∀ p ∈ ps, p.Printable) :
    (Json.arr (properties ps)).Finite := by
  rw [properties_eq]
  exact finite_map (fun p hp => finite_property (hps p hp))

theorem finite_resource {r : Resource} (hr : (Member.resource r).Printable) : (resource r).Finite := by
  obtain ⟨hinputs, houtputs⟩ := List.forall_mem_append.mp hr.2
  have hnamed : FiniteMembers [("token", token r.token), ("name", .str r.name), ("rawName", .str r.rawName),
      ("fileStem", .str r.fileStem)] :=
    finite_cons (.str _) (finite_cons (.str _) (finite_cons (.str _) (finite_cons (.str _) finite_nil)))
  have hproperties : FiniteMembers [("inputProperties", .arr (properties r.inputs)),
      ("outputProperties", .arr (properties r.outputs))] :=
    finite_cons (finite_properties hinputs) (finite_cons (finite_properties houtputs) finite_nil)
  exact .obj ((((hnamed.append (finite_textUnlessEmpty _ _)).append hproperties).append
    (finite_ifTrue _ _)).append
    (finite_ifTrue _ _))

theorem finite_dataSource {f : DataSource} (hf : (Member.dataSource f).Printable) :
    (dataSource f).Finite := by
  obtain ⟨harguments, hresults⟩ := List.forall_mem_append.mp hf.2
  have hnamed : FiniteMembers [("token", token f.token), ("name", .str f.name), ("rawName", .str f.rawName),
      ("fileStem", .str f.fileStem)] :=
    finite_cons (.str _) (finite_cons (.str _) (finite_cons (.str _) (finite_cons (.str _) finite_nil)))
  have hproperties : FiniteMembers [("args", .arr (properties f.arguments)),
      ("results", .arr (properties f.results))] :=
    finite_cons (finite_properties harguments) (finite_cons (finite_properties hresults) finite_nil)
  exact .obj ((hnamed.append (finite_textUnlessEmpty _ _)).append hproperties)

theorem dependencies_injective : Function.Injective dependencies := by
  intro m m' h
  refine List.map_injective_iff.mpr ?_ (Json.obj.inj h)
  rintro ⟨key, version⟩ ⟨key', version'⟩ heq
  simpa using heq

theorem option_injective {α : Type} {f : α → Json} (hf : Function.Injective f) (hnull : ∀ a, f a ≠ .null) :
    Function.Injective (Json.option f) := by
  intro o o' h
  cases o with
  | none =>
    cases o' with
    | none => rfl
    | some a => exact absurd h.symm (hnull a)
  | some a =>
    cases o' with
    | none => exact absurd h (hnull a)
    | some a' => exact congrArg some (hf h)

theorem metadataMembers_injective : Function.Injective metadataMembers := by
  intro m m' h
  simp only [metadataMembers, List.cons.injEq, Prod.mk.injEq, Json.str.injEq, true_and, and_true] at h
  obtain ⟨hdescription, hkeywords, hhomepage, hrepository, hlicense⟩ := h
  cases m
  cases m'
  exact PackageMetadata.mk.injEq .. ▸ ⟨hdescription, texts_injective hkeywords, hhomepage,
    hrepository, hlicense⟩

theorem packaging_injective : Function.Injective packaging := by
  intro o o' h
  simp only [packaging, Json.obj.injEq, List.cons.injEq, Prod.mk.injEq, true_and, and_true] at h
  obtain ⟨⟨hdependencies, hdev, hpeer⟩, hpython, hdotnet, hgo⟩ := h
  cases o
  cases o'
  exact PackagingOptions.mk.injEq .. ▸ ⟨dependencies_injective hdependencies, dependencies_injective hdev,
    dependencies_injective hpeer, dependencies_injective hpython, dependencies_injective hdotnet,
    option_injective str_injective (fun _ => Json.noConfusion) hgo⟩

theorem finite_dependencies (m : Dependencies) : (dependencies m).Finite := by
  refine .obj (List.forall_mem_map.mpr ?_)
  rintro ⟨key, version⟩ _
  exact .str version

theorem finite_metadataMembers (m : PackageMetadata) : FiniteMembers (metadataMembers m) :=
  finite_cons (.str _) (finite_cons (finite_texts _) (finite_cons (.str _)
    (finite_cons (.str _) (finite_cons (.str _)
    finite_nil))))

theorem finite_packaging (o : PackagingOptions) : (packaging o).Finite := by
  have hpath : (Json.option Json.str o.goImportBasePath).Finite := by
    cases o.goImportBasePath with
    | none => exact .null
    | some path => exact .str path
  have hone (key : String) (m : Dependencies) : (Json.obj [(key, dependencies m)]).Finite :=
    .obj (finite_cons (finite_dependencies m) finite_nil)
  exact .obj (finite_cons (.obj (finite_cons (finite_dependencies _) (finite_cons (finite_dependencies _)
    (finite_cons (finite_dependencies _) finite_nil)))) (finite_cons (hone _ _) (finite_cons (hone _ _)
    (finite_cons (.obj (finite_cons hpath finite_nil)) finite_nil))))

end Serialized

end ProviderSdk
