import ProviderSdk.Compile.Resolution
import ProviderSdk.Proofs.Values.Translation

/-!
# Names of what the provider is given

Which objects of what the provider is given have raw names only. Those that the translation reaches
do: it goes through lists and sets of objects. It does not go through collections of collections,
whose objects keep canonical names, and it takes a map of objects for one object.
-/

namespace ProviderSdk

mutual

/-- An object with members stands in a value of a field where the schema has an object with fields.
A list or set that is treated as its only element may be that element. -/
inductive FieldSchema.Holds (fields : ObjectSchema) (members : Properties) : FieldSchema → Json → Prop where
  | item {kind element traits items item} (notMap : kind ≠ .map) (hitem : item ∈ items)
      (inner : Element.Holds fields members element item) :
      FieldSchema.Holds fields members (.collection kind element traits) (.arr items)
  | only {kind element traits value} (notMap : kind ≠ .map)
      (inner : Element.Holds fields members element value) :
      FieldSchema.Holds fields members (.collection kind element traits) value
  | entry {element traits entries key value} (hentry : (key, value) ∈ entries)
      (inner : Element.Holds fields members element value) :
      FieldSchema.Holds fields members (.collection .map element traits) (.obj entries)

inductive Element.Holds (fields : ObjectSchema) (members : Properties) : Element → Json → Prop where
  | field {f value} (inner : FieldSchema.Holds fields members f value) :
      Element.Holds fields members (.field f) value
  | here : Element.Holds fields members (.object fields) (.obj members)
  | member {outer entries key f value} (hf : (key, f) ∈ outer) (hentry : (key, value) ∈ entries)
      (inner : FieldSchema.Holds fields members f value) :
      Element.Holds fields members (.object outer) (.obj entries)

end

def ObjectSchema.NamesRaw (fields : ObjectSchema) (members : Properties) : Prop :=
  ∀ key ∈ members.map Prod.fst, key ∈ fields.activeKeys

/-- Every object in a value of a field has raw names only. -/
def FieldSchema.RawNamed (f : FieldSchema) (value : Json) : Prop :=
  ∀ fields members, f.Holds fields members value → fields.NamesRaw members

def Element.RawNamed (element : Element) (value : Json) : Prop :=
  ∀ fields members, element.Holds fields members value → fields.NamesRaw members

inductive FieldSchema.WithoutObjects : FieldSchema → Prop where
  | scalar {kind traits} : WithoutObjects (.scalar kind traits)
  | field {kind f traits} (inner : WithoutObjects f) : WithoutObjects (.collection kind (.field f) traits)

/-- All objects of a field are translated: they stand in lists and sets of objects. -/
inductive FieldSchema.Translated : FieldSchema → Prop where
  | scalar {kind traits} : Translated (.scalar kind traits)
  | field {kind f traits} (inner : f.WithoutObjects) : Translated (.collection kind (.field f) traits)
  | object {kind fields traits} (notMap : kind ≠ .map)
      (inner : ∀ key f, (key, f) ∈ fields → f.isRemoved = false → Translated f) :
      Translated (.collection kind (.object fields) traits)

def ObjectSchema.Translated (schema : ObjectSchema) : Prop :=
  ∀ key f, (key, f) ∈ schema → f.isRemoved = false → f.Translated

theorem FieldSchema.WithoutObjects.rawNamed {f : FieldSchema} (h : f.WithoutObjects) (value : Json) :
    f.RawNamed value := by
  induction h generalizing value with
  | scalar =>
    intro fields members hholds
    cases hholds
  | field _ ih =>
    intro fields members hholds
    cases hholds with
    | item _ _ inner => cases inner with | field inner => exact ih _ fields members inner
    | only _ inner => cases inner with | field inner => exact ih _ fields members inner
    | entry _ inner => cases inner with | field inner => exact ih _ fields members inner

variable {env : Environment}

theorem rawNamed_providerMembers {fields : ObjectSchema} {overrides : OverrideLookup}
    (hkeys : (fields.map Prod.fst).Nodup)
    (hfields : ∀ key f, (key, f) ∈ fields → f.isRemoved = false →
      ∀ override old value, f.RawNamed (providerValue env f override old value))
    (olds : Option Properties) (news : Properties) :
    Element.RawNamed (.object fields) (.obj (providerMembers env fields overrides olds news)) := by
  intro inner members hholds
  cases hholds with
  | here =>
    intro key hkey
    obtain ⟨⟨_, v⟩, hv, rfl⟩ := List.mem_map.mp hkey
    obtain ⟨f, hf, hmember⟩ := mem_providerMembers.mp hv
    exact ⟨f, hf, isRemoved_eq_false_of_providerMember? hmember⟩
  | @member _ _ key f value hf hentry hinner =>
    obtain ⟨f', hf', hmember⟩ := mem_providerMembers.mp hentry
    have hsame : f' = f := Json.eq_of_mem_of_mem hkeys hf' hf
    subst hsame
    have hactive := isRemoved_eq_false_of_providerMember? hmember
    simp only [providerMember?, hactive, Bool.false_eq_true, if_false] at hmember
    obtain ⟨v, _, rfl⟩ := Option.map_eq_some_iff.mp hmember
    exact hfields key f' hf hactive _ _ v inner members hinner

theorem FieldSchema.Translated.rawNamed {f : FieldSchema} (h : f.Translated) (hkeys : f.DistinctKeys)
    (override : Option FieldOverride) (old : Option Json) (value : Json) :
    f.RawNamed (providerValue env f override old value) := by
  induction f generalizing override old value with
  | scalar => exact FieldSchema.WithoutObjects.scalar.rawNamed _
  | field kind f traits =>
    cases h with | field inner =>
    exact (FieldSchema.WithoutObjects.field inner).rawNamed _
  | object kind fields traits ih =>
    cases h with | object notMap inner =>
    cases hkeys with | object keys innerKeys =>
    have hobject (olds : Option Properties) (news : Properties) :=
      @rawNamed_providerMembers env fields (innerOverrides override) keys
        (fun key f hf hactive => ih key f hf (inner key f hf hactive) (innerKeys key f hf)) olds news
    intro fields' members hholds
    cases value with
    | obj news =>
      cases hholds with
      | only _ inner => exact hobject _ news fields' members inner
      | entry => exact absurd rfl notMap
    | arr items =>
      simp only [providerValue, providerHeld] at hholds
      cases hholds with
      | only _ inner => cases inner
      | item _ hitem inner =>
        obtain ⟨item, _, rfl⟩ := List.mem_map.mp hitem
        cases item with
        | obj news => exact hobject none news fields' members inner
        | _ => cases inner
    | _ => cases hholds with | only _ inner => cases inner

def ScalarKind.Admits : ScalarKind → Json → Prop
  | .bool, .bool _ => True
  | .int, .num _ => True
  | .float, .num _ => True
  | .string, .str _ => True
  | _, _ => False

mutual

/-- A value of a user has the type of a field. -/
inductive FieldSchema.WellTyped : FieldSchema → Option FieldOverride → Json → Prop where
  | scalar {kind traits override value} (inner : ScalarKind.Admits kind value) :
      FieldSchema.WellTyped (.scalar kind traits) override value
  | items {kind element traits override items} (notMap : kind ≠ .map)
      (many : isSingleItem (.collection kind element traits) override = false)
      (inner : ∀ item, item ∈ items → Element.WellTyped element override item) :
      FieldSchema.WellTyped (.collection kind element traits) override (.arr items)
  | only {kind element traits override value} (notMap : kind ≠ .map)
      (single : isSingleItem (.collection kind element traits) override = true)
      (inner : Element.WellTyped element override value) :
      FieldSchema.WellTyped (.collection kind element traits) override value
  | entries {element traits override members}
      (inner : ∀ key value, (key, value) ∈ members → Element.WellTyped element override value) :
      FieldSchema.WellTyped (.collection .map element traits) override (.obj members)

/-- A value of a user has the type of an element. -/
inductive Element.WellTyped : Element → Option FieldOverride → Json → Prop where
  | field {f override value} (inner : FieldSchema.WellTyped f (override.bind (fun o => o.element)) value) :
      Element.WellTyped (.field f) override value
  | object {fields override members} (inner : ObjectSchema.WellTyped fields
    (innerOverrides override) members) :
      Element.WellTyped (.object fields) override (.obj members)

/-- Properties of a user stand under the canonical names of fields, each with the type of its field. -/
inductive ObjectSchema.WellTyped : ObjectSchema → OverrideLookup → Properties → Prop where
  | nil {fields overrides} : ObjectSchema.WellTyped fields overrides []
  | cons {fields overrides key f value rest} (hf : (key, f) ∈ fields) (active : f.isRemoved = false)
      (typed : FieldSchema.WellTyped f (overrides key) value)
      (fresh : propertyName key (overrides key) ∉ rest.map Prod.fst)
      (inner : ObjectSchema.WellTyped fields overrides rest) :
      ObjectSchema.WellTyped fields overrides ((propertyName key (overrides key), value) :: rest)

end

theorem ObjectSchema.wellTyped_singleton {fields : ObjectSchema} {overrides : OverrideLookup} {key : String}
    {f : FieldSchema} (hf : (key, f) ∈ fields) (hactive : f.isRemoved = false) {value : Json}
    (h : f.WellTyped (overrides key) value) :
    fields.WellTyped overrides [(propertyName key (overrides key), value)] :=
  .cons hf hactive h (by simp) .nil

/-- Every object of a field has a scalar field that is not removed. What is removed does not count. -/
inductive FieldSchema.HasData : FieldSchema → Prop where
  | scalar {kind traits} : HasData (.scalar kind traits)
  | field {kind f traits} (inner : HasData f) : HasData (.collection kind (.field f) traits)
  | object {kind fields traits}
      (data : ∃ key kind traits, (key, .scalar kind traits) ∈ fields ∧ traits.removed.isSome = false)
      (inner : ∀ key f, (key, f) ∈ fields → f.isRemoved = false → HasData f) :
      HasData (.collection kind (.object fields) traits)

/-- Every object that a field of a schema holds has a scalar field that is not removed. -/
def ObjectSchema.HasData (schema : ObjectSchema) : Prop :=
  ∀ key f, (key, f) ∈ schema → f.isRemoved = false → f.HasData

def ScalarKind.sample : ScalarKind → Json
  | .bool => .bool true
  | .int => .num (.int 0)
  | .float => .num (.int 0)
  | .string => .str ""

theorem ScalarKind.admits_sample (kind : ScalarKind) : kind.Admits kind.sample := by
  cases kind <;> trivial

def CollectionKind.holding (kind : CollectionKind) (value : Json) : Json :=
  match kind with
  | .map => .obj [("", value)]
  | _ => .arr [value]

/-- An override that says something about the element, and that a collection is never treated as its
element. -/
def elementOverride (override : FieldOverride) : FieldOverride :=
  { element := some override, maxItemsOne := some false }

/-- An override that says something about one field, and that a collection is never treated as its element. -/
def fieldOverride (key : String) (override : FieldOverride) : FieldOverride :=
  { fields := [(key, override)], maxItemsOne := some false }

def renamedTo (name : String) : FieldOverride := { name := some name }

@[simp] theorem innerOverrides_fieldOverride (key : String) (override : FieldOverride) :
    innerOverrides (some (fieldOverride key override)) key = some override := by
  simp [innerOverrides, fieldOverride, FieldOverride.field?]

theorem propertyName_renamedTo (key : String) {name : String} (h : name ≠ "") :
    propertyName key (some (renamedTo name)) = name := by
  simp [propertyName, renamedTo, h]

theorem wellTyped_holding {kind : CollectionKind} {element : Element} {traits : FieldTraits}
    {override : FieldOverride} {value : Json} (hsingle : override.maxItemsOne = some false)
    (h : element.WellTyped (some override) value) :
    FieldSchema.WellTyped (.collection kind element traits) (some override) (kind.holding value) := by
  have hmany (kind : CollectionKind) :
      isSingleItem (.collection kind element traits) (some override) = false := by
    simp [isSingleItem, hsingle]
  have hitem (kind : CollectionKind) (hkind : kind ≠ .map) :
      FieldSchema.WellTyped (.collection kind element traits) (some override) (.arr [value]) := by
    refine .items hkind (hmany kind) ?_
    intro item hitem
    exact List.mem_singleton.mp hitem ▸ h
  cases kind with
  | list => exact hitem .list (by decide)
  | set => exact hitem .set (by decide)
  | map =>
    refine .entries ?_
    intro key v hv
    cases List.mem_singleton.mp hv
    exact h

theorem holds_holding {kind : CollectionKind} {element : Element} {traits : FieldTraits} {value : Json}
    {fields : ObjectSchema} {members : Properties} (h : element.Holds fields members value) :
    FieldSchema.Holds fields members (.collection kind element traits) (kind.holding value) := by
  cases kind with
  | list => exact .item (by decide) List.mem_cons_self h
  | set => exact .item (by decide) List.mem_cons_self h
  | map => exact .entry List.mem_cons_self h

theorem not_rawNamed_holding {kind : CollectionKind} {element : Element} {traits : FieldTraits} {value : Json}
    (h : ¬ element.RawNamed value) :
    ¬ FieldSchema.RawNamed (.collection kind element traits) (kind.holding value) := by
  intro hraw
  exact h (fun fields members hholds => hraw fields members (holds_holding hholds))

def Json.Uncoerced (value : Json) : Prop := ∀ kind, coerceNumber kind value = value

theorem CollectionKind.uncoerced_holding (kind : CollectionKind) (value : Json) :
    (kind.holding value).Uncoerced := by
  intro valueKind
  cases kind <;> rfl

theorem providerValue_holding (kind : CollectionKind) (f : FieldSchema) (traits : FieldTraits)
    (override : Option FieldOverride) (old : Option Json) {value : Json} (h : value.Uncoerced) :
    providerValue env (.collection kind (.field f) traits) override old (kind.holding value) =
      kind.holding value := by
  cases kind <;> simp [providerValue, providerHeld, CollectionKind.holding, h f.kind]

theorem not_namesRaw_singleton {fields : ObjectSchema} {name : String} (h : name ∉ fields.map Prod.fst)
    (value : Json) : ¬ fields.NamesRaw [(name, value)] := by
  intro hraw
  obtain ⟨f, hf, _⟩ := hraw name (by simp)
  exact h (List.mem_map_of_mem hf)

theorem wellTyped_renamed {fields : ObjectSchema} {key name : String} {kind : ScalarKind}
    {traits : FieldTraits} (hname : name ≠ "") (hf : (key, .scalar kind traits) ∈ fields)
    (hactive : traits.removed.isSome = false) :
    Element.WellTyped (.object fields) (some (fieldOverride key (renamedTo name)))
      (.obj [(name, kind.sample)]) := by
  have htyped :=
    @ObjectSchema.wellTyped_singleton fields (innerOverrides (some (fieldOverride key (renamedTo name))))
    key _ hf hactive _ (.scalar kind.admits_sample)
  rw [innerOverrides_fieldOverride, propertyName_renamedTo key hname] at htyped
  exact .object htyped

/-- Somewhere in a field that holds objects a value has a canonical name. -/
theorem FieldSchema.exists_not_rawNamed {f : FieldSchema} (hobjects : ¬ f.WithoutObjects)
    (hdata : f.HasData) :
    ∃ override value, f.WellTyped (some override) value ∧ value.Uncoerced ∧ ¬ f.RawNamed value := by
  induction f with
  | scalar => exact absurd .scalar hobjects
  | field kind f traits ih =>
    cases hdata with | field hdata =>
    obtain ⟨override, value, htyped, _, hnames⟩ := ih (fun h => hobjects (.field h)) hdata
    refine ⟨elementOverride override, kind.holding value, wellTyped_holding rfl (.field htyped),
      kind.uncoerced_holding value, not_rawNamed_holding ?_⟩
    intro hraw
    exact hnames (fun fields members hholds => hraw fields members (.field hholds))
  | object kind fields traits _ =>
    cases hdata with | object data _ =>
    obtain ⟨key, scalarKind, scalarTraits, hf, hactive⟩ := data
    obtain ⟨name, hname, hfresh⟩ := ObjectSchema.exists_freshName fields
    refine ⟨fieldOverride key (renamedTo name), kind.holding (.obj [(name, scalarKind.sample)]),
      wellTyped_holding rfl (wellTyped_renamed hname hf hactive), kind.uncoerced_holding _,
      not_rawNamed_holding ?_⟩
    intro hraw
    exact not_namesRaw_singleton hfresh _ (hraw fields _ .here)

theorem mem_providerMembers_given {fields : ObjectSchema} {overrides : OverrideLookup} {key name : String}
    {f : FieldSchema} {value : Json} (hf : (key, f) ∈ fields) (hactive : f.isRemoved = false)
    (hname : propertyName key (overrides key) = name) (hvalue : value.Uncoerced) (olds : Option Properties) :
    (key, providerValue env f (overrides key) (olds.bind (fun o => o.lookup name)) value) ∈
      providerMembers env fields overrides olds [(name, value)] := by
  refine mem_providerMembers.mpr ⟨f, hf, ?_⟩
  simp [providerMember?, hactive, hname, resolveDefault, hvalue f.kind]

theorem not_rawNamed_providerMembers {fields : ObjectSchema} {overrides : OverrideLookup} {key : String}
    {f : FieldSchema} {value : Json} (hf : (key, f) ∈ fields) (hactive : f.isRemoved = false)
    (hvalue : value.Uncoerced)
    (hnames : ∀ old, ¬ f.RawNamed (providerValue env f (overrides key) old value))
    (olds : Option Properties) :
    ¬ Element.RawNamed (.object fields)
      (.obj (providerMembers env fields overrides olds [(propertyName key (overrides key), value)])) := by
  intro hraw
  have hmember := @mem_providerMembers_given env fields overrides key _ f value hf hactive rfl hvalue olds
  exact hnames _ (fun inner members hholds => hraw inner members (.member hf hmember hholds))

/-- A map of objects is taken for one object, so that the entry under the name of a field is given
to this field. -/
theorem exists_misnamed_entry {fields : ObjectSchema} (traits : FieldTraits)
    (hdata : ∃ key kind traits, (key, .scalar kind traits) ∈ fields ∧ traits.removed.isSome = false) :
    ∃ override value, FieldSchema.WellTyped (.collection .map (.object fields) traits) (some override) value ∧
      value.Uncoerced ∧ ∀ env old, ¬ FieldSchema.RawNamed (.collection .map (.object fields) traits)
        (providerValue env (.collection .map (.object fields) traits) (some override) old value) := by
  obtain ⟨key, kind, scalarTraits, hf, hactive⟩ := hdata
  obtain ⟨name, hname, hfresh⟩ := ObjectSchema.exists_freshName fields
  have htyped := wellTyped_renamed hname hf hactive
  -- The key of the entry is the name of the scalar field, which gets the whole object.
  refine ⟨fieldOverride key (renamedTo name), .obj [(name, .obj [(name, kind.sample)])], .entries ?_, ?_, ?_⟩
  · intro k v hv
    cases List.mem_singleton.mp hv
    exact htyped
  · exact fun _ => rfl
  · intro env old hraw
    have hrenamed : propertyName key (innerOverrides (some (fieldOverride key (renamedTo name))) key) =
        name := by
      rw [innerOverrides_fieldOverride, propertyName_renamedTo key hname]
    have hentry := @mem_providerMembers_given env fields _ key name _ (.obj [(name, kind.sample)]) hf hactive
      hrenamed (fun _ => rfl) (Json.object? old)
    exact not_namesRaw_singleton hfresh _ (hraw fields _ (.entry hentry .here))

/-- Where an object of a field is not translated, what is given to the provider may have a canonical name. -/
theorem FieldSchema.exists_misnamed {f : FieldSchema} (hdata : f.HasData) (hobjects : ¬ f.Translated) :
    ∃ override value, f.WellTyped (some override) value ∧ value.Uncoerced ∧
      ∀ env old, ¬ f.RawNamed (providerValue env f (some override) old value) := by
  induction f with
  | scalar => exact absurd .scalar hobjects
  | field kind f traits _ =>
    cases hdata with | field hdata =>
    obtain ⟨override, value, htyped, hvalue, hnames⟩ :=
      FieldSchema.exists_not_rawNamed (fun h => hobjects (.field h)) hdata
    refine ⟨elementOverride override, kind.holding value, wellTyped_holding rfl (.field htyped),
      kind.uncoerced_holding value, ?_⟩
    intro env old
    rw [providerValue_holding kind f traits _ old hvalue]
    apply not_rawNamed_holding
    intro hraw
    exact hnames (fun fields members hholds => hraw fields members (.field hholds))
  | object kind fields traits ih =>
    cases hdata with | object data innerData =>
    by_cases hkind : kind = .map
    · subst hkind
      exact exists_misnamed_entry traits data
    · have hfield : ∃ key f, (key, f) ∈ fields ∧ f.isRemoved = false ∧ ¬ f.Translated := by
        by_contra hnone
        apply hobjects
        refine .object hkind ?_
        intro key f hf hactive
        by_contra hf'
        exact hnone ⟨key, f, hf, hactive, hf'⟩
      obtain ⟨key, f, hf, hactive, hf'⟩ := hfield
      obtain ⟨override, value, htyped, hvalue, hnames⟩ := ih key f hf (innerData key f hf hactive) hf'
      have hinner := innerOverrides_fieldOverride key override
      refine ⟨fieldOverride key override, .arr [.obj [(propertyName key (some override), value)]],
        .items hkind rfl ?_, fun _ => rfl, ?_⟩
      · intro item hitem
        cases List.mem_singleton.mp hitem
        rw [← hinner] at htyped ⊢
        exact .object (ObjectSchema.wellTyped_singleton hf hactive htyped)
      · intro env old hraw
        rw [← hinner] at hnames hraw
        apply not_rawNamed_providerMembers hf hactive hvalue (hnames env) none
        intro inner members hholds
        exact hraw inner members (.item hkind List.mem_cons_self hholds)

/-- What the provider is given has raw names at every depth if all objects of the schema are
translated. If some are not, there are overrides and well typed properties for which a canonical
name is left. -/
theorem rawNamed_providerInputs (schema : ObjectSchema) (hkeys : schema.DistinctKeys) :
    (schema.Translated → ∀ overrides news olds env,
      Element.RawNamed (.object schema) (.obj (providerInputs news olds schema overrides env))) ∧
    (schema.HasData → ¬ schema.Translated → ∃ (overrides : FieldOverrides) (news : Properties),
      schema.WellTyped (fun key => overrides.lookup key) news ∧ ∀ olds env,
        ¬ Element.RawNamed (.object schema) (.obj (providerInputs news olds schema overrides env))) := by
  constructor
  · intro hobjects overrides news olds env
    apply rawNamed_providerMembers hkeys.keys
    intro key f hf hactive override old value
    exact (hobjects key f hf hactive).rawNamed (hkeys.inner key f hf) override old value
  · intro hdata hobjects
    simp only [ObjectSchema.Translated, not_forall] at hobjects
    obtain ⟨key, f, hf, hactive, hf'⟩ := hobjects
    obtain ⟨override, value, htyped, hvalue, hnames⟩ :=
      FieldSchema.exists_misnamed (hdata key f hf hactive) hf'
    have hlookup : List.lookup key [(key, override)] = some override := by simp
    refine ⟨[(key, override)], [(propertyName key (some override), value)], ?_, ?_⟩
    · rw [← hlookup] at htyped ⊢
      exact ObjectSchema.wellTyped_singleton hf hactive htyped
    · intro olds env
      rw [← hlookup] at hnames ⊢
      exact not_rawNamed_providerMembers hf hactive hvalue (hnames env) olds

theorem ruleSchema_translated : ruleSchema.Translated := by
  intro key f h _
  obtain ⟨-, rfl⟩ | ⟨-, rfl⟩ := mem_ruleSchema h
  · exact .scalar
  · refine .object (by decide) ?_
    intro key f h _
    obtain ⟨-, rfl⟩ | ⟨-, rfl⟩ := mem_ruleFields h <;> exact .scalar

def hostFields : ObjectSchema := [("host_name", .scalar .string {})]

def hostGroups : FieldSchema := .collection .list (.field (.collection .list (.object hostFields) {})) {}

def groupSchema : ObjectSchema := [("groups", hostGroups)]

theorem mem_hostFields {key : String} {f : FieldSchema} (h : (key, f) ∈ hostFields) :
    key = "host_name" ∧ f = .scalar .string {} := by
  simpa [hostFields] using h

theorem mem_groupSchema {key : String} {f : FieldSchema} (h : (key, f) ∈ groupSchema) :
    key = "groups" ∧ f = hostGroups := by
  simpa [groupSchema] using h

theorem groupSchema_distinctKeys : groupSchema.DistinctKeys where
  keys := by decide
  inner := by
    intro key f h
    obtain ⟨-, rfl⟩ := mem_groupSchema h
    refine .field (.object (by decide) ?_)
    intro key f h
    obtain ⟨-, rfl⟩ := mem_hostFields h
    exact .scalar

theorem groupSchema_hasData : groupSchema.HasData := by
  intro key f h _
  obtain ⟨-, rfl⟩ := mem_groupSchema h
  refine .field (.object ⟨"host_name", .string, {}, List.mem_cons_self, rfl⟩ ?_)
  intro key f h _
  obtain ⟨-, rfl⟩ := mem_hostFields h
  exact .scalar

theorem groupSchema_not_translated : ¬ groupSchema.Translated := by
  intro h
  cases h "groups" hostGroups List.mem_cons_self rfl with | field inner =>
  cases inner

/-- Rules have raw names only; the hosts of groups may keep canonical ones. -/
theorem ruleSchema_rawNamed_groupSchema_misnamed :
    (∀ overrides news olds env,
      Element.RawNamed (.object ruleSchema) (.obj (providerInputs news olds ruleSchema overrides env))) ∧
    ∃ (overrides : FieldOverrides) (news : Properties),
      groupSchema.WellTyped (fun key => overrides.lookup key) news ∧ ∀ olds env,
        ¬ Element.RawNamed (.object groupSchema) (.obj (providerInputs news olds groupSchema
          overrides env)) :=
  ⟨(rawNamed_providerInputs ruleSchema ruleSchema_distinctKeys).1 ruleSchema_translated,
    (rawNamed_providerInputs groupSchema groupSchema_distinctKeys).2 groupSchema_hasData
      groupSchema_not_translated⟩

def groupNews : Properties := [("groups", .arr [.arr [.obj [("hostName", .str "a")]]])]

theorem groupSchema_wellTyped_groupNews : groupSchema.WellTyped (fun _ => none) groupNews := by
  have hhost : Element.WellTyped (.object hostFields) none (.obj [("hostName", .str "a")]) :=
    .object (@ObjectSchema.wellTyped_singleton hostFields _ "host_name" _ List.mem_cons_self rfl _
      (.scalar trivial))
  have hgroup : Element.WellTyped (.field (.collection .list (.object hostFields) {})) none
      (.arr [.obj [("hostName", .str "a")]]) := by
    refine .field (.items (by decide) rfl ?_)
    intro item hitem
    cases List.mem_singleton.mp hitem
    exact hhost
  refine @ObjectSchema.wellTyped_singleton groupSchema _ "groups" _ List.mem_cons_self rfl _
    (.items (by decide) rfl ?_)
  intro item hitem
  cases List.mem_singleton.mp hitem
  exact hgroup

/-- The host of the group keeps its canonical name, without any overrides. -/
theorem groupNews_misnamed :
    groupSchema.WellTyped (fun key => ([] : FieldOverrides).lookup key) groupNews ∧
      ¬ Element.RawNamed (.object groupSchema)
        (.obj (providerInputs groupNews none groupSchema [] (fun _ => none))) := by
  refine ⟨groupSchema_wellTyped_groupNews, ?_⟩
  have hinputs : providerInputs groupNews none groupSchema [] (fun _ => none) = groupNews := by rfl
  rw [hinputs]
  intro hraw
  have hhost : Element.Holds hostFields [("hostName", .str "a")] (.object groupSchema) (.obj groupNews) :=
    .member List.mem_cons_self List.mem_cons_self
      (.item (by decide) List.mem_cons_self
        (.field (.item (by decide) List.mem_cons_self .here)))
  exact not_namesRaw_singleton (by decide) _ (hraw hostFields _ hhost)

end ProviderSdk
