import ProviderSdk.Proofs.Values.RawNames

/-!
# Numbers of what users are given

Which numbers of what users are given are of the kind of their position: integers, or floating point
where the schema says so. Those of scalar fields are, and those in lists and sets of scalars, at
whatever depth lists and sets of objects hold them. What is in maps and in collections of
collections keeps the numbers of the provider.
-/

namespace ProviderSdk

mutual

/-- Some number in a value of a field is not of the kind of its position. An object may stand for a
list or set of objects that has it as its only element. -/
inductive FieldSchema.Misfit : FieldSchema → Option FieldOverride → Json → Prop where
  | number {kind traits override n} (misfit : ¬ n.Fits (.scalar kind)) :
      FieldSchema.Misfit (.scalar kind traits) override (.num n)
  | item {kind element traits override items item} (notMap : kind ≠ .map) (hitem : item ∈ items)
      (inner : Element.Misfit element override item) :
      FieldSchema.Misfit (.collection kind element traits) override (.arr items)
  | only {kind fields traits override members} (notMap : kind ≠ .map)
      (inner : Element.Misfit (.object fields) override (.obj members)) :
      FieldSchema.Misfit (.collection kind (.object fields) traits) override (.obj members)
  | entry {element traits override entries key value} (hentry : (key, value) ∈ entries)
      (inner : Element.Misfit element override value) :
      FieldSchema.Misfit (.collection .map element traits) override (.obj entries)

/-- Some number in a value of an element is not of the kind of its position. -/
inductive Element.Misfit : Element → Option FieldOverride → Json → Prop where
  | field {f override value} (inner : FieldSchema.Misfit f (override.bind (fun o => o.element)) value) :
      Element.Misfit (.field f) override value
  | object {fields override members} (inner : ObjectSchema.Misfit fields (innerOverrides override) members) :
      Element.Misfit (.object fields) override (.obj members)

/-- Some number in properties under canonical names is not of the kind of its position. Where
overrides give one name to several fields, it is of none of their kinds. -/
inductive ObjectSchema.Misfit : ObjectSchema → OverrideLookup → Properties → Prop where
  | member {fields overrides members key f value} (hf : (key, f) ∈ fields)
      (hmember : (propertyName key (overrides key), value) ∈ members)
      (inner : ∀ k g, (k, g) ∈ fields → propertyName k (overrides k) = propertyName key (overrides key) →
        FieldSchema.Misfit g (overrides k) value) :
      ObjectSchema.Misfit fields overrides members

end

/-- Scalars, lists and sets of scalars, and lists and sets of objects with such fields. -/
inductive FieldSchema.Coerced : FieldSchema → Prop where
  | scalar {kind traits} : Coerced (.scalar kind traits)
  | scalars {kind scalarKind scalarTraits traits} (notMap : kind ≠ .map) :
      Coerced (.collection kind (.field (.scalar scalarKind scalarTraits)) traits)
  | objects {kind fields traits} (notMap : kind ≠ .map) (inner : ∀ key f, (key, f) ∈ fields → Coerced f) :
      Coerced (.collection kind (.object fields) traits)

def ObjectSchema.Coerced (schema : ObjectSchema) : Prop := ∀ key f, (key, f) ∈ schema → f.Coerced

variable {fields : ObjectSchema} {overrides : OverrideLookup}

/-- If every field is given to users with fitting numbers, so is the whole object. -/
theorem not_misfit_canonicalMembers
    (h : ∀ key f, (key, f) ∈ fields → ∀ value,
      ¬ f.Misfit (overrides key) (canonicalValue f (overrides key) value))
    (raw : Properties) :
    ¬ ObjectSchema.Misfit fields overrides (Json.Members.sorted (canonicalMembers fields overrides raw)) := by
  rintro ⟨-, hmember, inner⟩
  obtain ⟨key, v, f, -, hlookup, hname, rfl⟩ := mem_canonicalMembers.mp (Json.mem_of_mem_sorted hmember)
  have hf := Json.mem_of_lookup hlookup
  exact h key f hf v (inner key f hf hname)

theorem FieldSchema.Coerced.not_misfit {f : FieldSchema} (h : f.Coerced) (override : Option FieldOverride)
    (value : Json) : ¬ f.Misfit override (canonicalValue f override value) := by
  induction f generalizing override value with
  | scalar kind traits =>
    intro hmisfit
    cases value with
    | num n =>
      simp only [canonicalValue, coerceNumber, FieldSchema.kind] at hmisfit
      cases hmisfit with | number misfit => exact misfit (n.coerce_fits _)
    | _ => cases hmisfit
  | field kind f traits _ =>
    cases h with | @scalars _ scalarKind _ _ notMap =>
    intro hmisfit
    cases value with
    | arr items =>
      simp only [canonicalValue, FieldSchema.element?] at hmisfit
      cases hmisfit with | item _ hitem inner =>
      obtain ⟨item, -, rfl⟩ := List.mem_map.mp hitem
      cases inner with | field inner =>
      cases item with
      | num n => cases inner with | number misfit => exact misfit (n.coerce_fits _)
      | _ => cases inner
    | obj members => cases hmisfit with | entry => exact notMap rfl
    | _ => cases hmisfit
  | object kind fields traits ih =>
    cases h with | objects notMap inner =>
    have hobject (members : Properties) := @not_misfit_canonicalMembers fields (innerOverrides override)
      (fun key f hf value => ih key f hf (inner key f hf) (innerOverrides override key) value) members
    intro hmisfit
    cases value with
    | obj members =>
      simp only [canonicalValue, FieldSchema.element?] at hmisfit
      cases hmisfit with
      | only _ inner => cases inner with | object inner => exact hobject members inner
      | entry => exact notMap rfl
    | arr items =>
      simp only [canonicalValue, FieldSchema.element?, canonicalItems_eq_map] at hmisfit
      cases hmisfit with | item _ hitem inner =>
      obtain ⟨item, -, rfl⟩ := List.mem_map.mp hitem
      cases item with
      | obj members => cases inner with | object inner => exact hobject members inner
      | _ => cases inner
    | _ => cases hmisfit

inductive FieldSchema.HasScalars : FieldSchema → Prop where
  | scalar {kind traits} : HasScalars (.scalar kind traits)
  | field {kind f traits} (inner : HasScalars f) : HasScalars (.collection kind (.field f) traits)
  | object {kind fields traits} (scalar : ∃ key kind traits, (key, .scalar kind traits) ∈ fields)
      (inner : ∀ key f, (key, f) ∈ fields → HasScalars f) :
        HasScalars (.collection kind (.object fields) traits)

/-- Every object that a field of a schema holds has a scalar field. -/
def ObjectSchema.HasScalars (schema : ObjectSchema) : Prop := ∀ key f, (key, f) ∈ schema → f.HasScalars

def ScalarKind.misfit : ScalarKind → Number
  | .float => .int 0
  | _ => .float (.zero false)

theorem ScalarKind.not_fits_misfit (kind : ScalarKind) : ¬ kind.misfit.Fits (.scalar kind) := by
  cases kind <;> simp [ScalarKind.misfit, Number.Fits, ValueKind.isFloat]

def FieldOverride.named (override : FieldOverride) (name : String) : FieldOverride :=
  { override with name := some name }

theorem propertyName_named (key : String) (override : FieldOverride) {name : String} (h : name ≠ "") :
    propertyName key (some (override.named name)) = name := by
  simp [propertyName, FieldOverride.named, h]

@[simp] theorem innerOverrides_named (override : FieldOverride) (name : String) :
    innerOverrides (some (override.named name)) = innerOverrides (some override) := rfl

/-- Something is said about one field only, among other things a name that none of the fields has
otherwise. -/
structure OverrideLookup.Names (overrides : OverrideLookup) (fields : ObjectSchema) (key name : String)
    (override : FieldOverride) : Prop where
  ne_empty : name ≠ ""
  fresh : ∀ k ∈ fields.map Prod.fst, Text.canonicalName k ≠ name
  at_key : overrides key = some (override.named name)
  elsewhere : ∀ k, k ≠ key → overrides k = none

theorem ObjectSchema.exists_freshCanonicalName (fields : ObjectSchema) :
    ∃ name, name ≠ "" ∧ ∀ k ∈ fields.map Prod.fst, Text.canonicalName k ≠ name := by
  obtain ⟨name, hne, hfresh⟩ :=
    ObjectSchema.exists_freshName (fields.map (fun p => (Text.canonicalName p.1, p.2)))
  refine ⟨name, hne, fun k hk heq => hfresh ?_⟩
  obtain ⟨p, hp, rfl⟩ := List.mem_map.mp hk
  exact List.mem_map.mpr ⟨_, List.mem_map_of_mem hp, heq⟩

theorem names_singleton (fields : ObjectSchema) (key : String) {name : String} (override : FieldOverride)
    (hne : name ≠ "") (hfresh : ∀ k ∈ fields.map Prod.fst, Text.canonicalName k ≠ name) :
    OverrideLookup.Names (fun k => List.lookup k [(key, override.named name)]) fields key name override where
  ne_empty := hne
  fresh := hfresh
  at_key := by simp
  elsewhere := fun k hk => by rw [Json.lookup_cons_ite, if_neg hk, List.lookup_nil]

theorem names_fieldOverride (fields : ObjectSchema) (key : String) {name : String} (override : FieldOverride)
    (hne : name ≠ "") (hfresh : ∀ k ∈ fields.map Prod.fst, Text.canonicalName k ≠ name) :
    OverrideLookup.Names (innerOverrides (some (fieldOverride key (override.named name)))) fields
      key name override :=
  names_singleton fields key override hne hfresh

namespace OverrideLookup.Names

variable {key name : String} {override : FieldOverride} {f : FieldSchema}

theorem propertyName_eq (h : overrides.Names fields key name override) :
    propertyName key (overrides key) = name := by
  rw [h.at_key, propertyName_named key override h.ne_empty]

theorem misfit (h : overrides.Names fields key name override) (hkeys : (fields.map Prod.fst).Nodup)
    (hf : (key, f) ∈ fields) {value : Json} (hvalue : f.Misfit (some (override.named name)) value) :
    ObjectSchema.Misfit fields overrides [(name, value)] := by
  refine .member hf (by rw [h.propertyName_eq]; exact List.mem_cons_self) (fun k g hg hname => ?_)
  rw [h.propertyName_eq] at hname
  by_cases hk : k = key
  · subst hk
    have hsame : g = f := Json.eq_of_mem_of_mem hkeys hg hf
    rw [hsame, h.at_key]
    exact hvalue
  · rw [h.elsewhere k hk] at hname
    exact absurd hname (h.fresh k (List.mem_map_of_mem hg))

theorem canonicalMembers_eq (h : overrides.Names fields key name override)
    (hkeys : (fields.map Prod.fst).Nodup) (hf : (key, f) ∈ fields) (value : Json) :
    Json.Members.sorted (canonicalMembers fields overrides [(key, value)]) =
      [(name, canonicalValue f (some (override.named name)) value)] := by
  have hname := h.propertyName_eq
  rw [h.at_key] at hname
  simp only [canonicalMembers, Json.lookup_of_mem hkeys hf, h.at_key, hname]
  rfl

end OverrideLookup.Names

theorem misfit_holding {kind : CollectionKind} {element : Element} {traits : FieldTraits}
    {override : Option FieldOverride} {value : Json} (h : element.Misfit override value) :
    FieldSchema.Misfit (.collection kind element traits) override (kind.holding value) := by
  cases kind with
  | list => exact .item (by decide) List.mem_cons_self h
  | set => exact .item (by decide) List.mem_cons_self h
  | map => exact .entry List.mem_cons_self h

theorem exists_misfit_object (hkeys : (fields.map Prod.fst).Nodup)
    (hscalar : ∃ key kind traits, (key, .scalar kind traits) ∈ fields) :
    ∃ key kind traits name override, (key, .scalar kind traits) ∈ fields ∧
      OverrideLookup.Names (innerOverrides (some override)) fields key name {} ∧
      Element.Misfit (.object fields) (some override) (.obj [(name, .num kind.misfit)]) := by
  obtain ⟨key, kind, traits, hf⟩ := hscalar
  obtain ⟨name, hne, hfresh⟩ := fields.exists_freshCanonicalName
  have hnames := names_fieldOverride fields key {} hne hfresh
  exact ⟨key, kind, traits, name, _, hf, hnames,
    .object (hnames.misfit hkeys hf (.number kind.not_fits_misfit))⟩

/-- Some value of a field has a number that does not fit; of a collection it is no number itself. -/
theorem FieldSchema.HasScalars.exists_misfit {f : FieldSchema} (h : f.HasScalars) (hkeys : f.DistinctKeys) :
    ∃ override value, f.Misfit (some override) value ∧
      ((∃ kind traits, f = .scalar kind traits) ∨ value.Uncoerced) := by
  induction f with
  | scalar kind traits => exact ⟨{}, .num kind.misfit, .number kind.not_fits_misfit, .inl ⟨kind, traits, rfl⟩⟩
  | field kind f traits ih =>
    cases h with | field inner =>
    cases hkeys with | field innerKeys =>
    obtain ⟨override, value, hmisfit, -⟩ := ih inner innerKeys
    exact ⟨elementOverride override, kind.holding value, misfit_holding (.field hmisfit),
      .inr (kind.uncoerced_holding value)⟩
  | object kind fields traits _ =>
    cases h with | object scalar _ =>
    cases hkeys with | object keys _ =>
    obtain ⟨_, _, _, _, override, -, -, hmisfit⟩ := exists_misfit_object keys scalar
    exact ⟨override, _, misfit_holding hmisfit, .inr (kind.uncoerced_holding _)⟩

/-- Users are given the collections of a collection, and the entries of a map, as they are. -/
theorem canonicalValue_holding {kind : CollectionKind} {f : FieldSchema} (traits : FieldTraits)
    (override : Option FieldOverride) {value : Json} (h : kind = .map ∨ value.Uncoerced) :
    canonicalValue (.collection kind (.field f) traits) override (kind.holding value) =
      kind.holding value := by
  cases kind with
  | map => rfl
  | _ =>
    obtain hmap | hvalue := h
    · cases hmap
    · simp [canonicalValue, CollectionKind.holding, FieldSchema.element?, hvalue f.kind]

/-- Of a field that is not coerced throughout, users may be given a number that does not fit,
whatever its name is. -/
theorem FieldSchema.exists_misfit {f : FieldSchema} (hkeys : f.DistinctKeys) (hscalars : f.HasScalars)
    (hcoerced : ¬ f.Coerced) :
    ∃ override value, ∀ name, f.Misfit (some (FieldOverride.named override name))
      (canonicalValue f (some (FieldOverride.named override name)) value) := by
  induction f with
  | scalar => exact absurd .scalar hcoerced
  | field kind f traits _ =>
    cases hscalars with | field innerScalars =>
    cases hkeys with | field innerKeys =>
    obtain ⟨override, value, hmisfit, hvalue⟩ := innerScalars.exists_misfit innerKeys
    have hkept : kind = .map ∨ value.Uncoerced := by
      obtain ⟨scalarKind, scalarTraits, rfl⟩ | hvalue := hvalue
      · exact .inl (by_contra fun hkind => hcoerced (.scalars hkind))
      · exact .inr hvalue
    refine ⟨elementOverride override, kind.holding value, fun name => ?_⟩
    rw [canonicalValue_holding traits _ hkept]
    exact misfit_holding (.field hmisfit)
  | object kind fields traits ih =>
    cases hscalars with | object scalar innerScalars =>
    cases hkeys with | object keys innerKeys =>
    by_cases hkind : kind = .map
    · -- The entry under the key of a scalar field is taken for a value of this field, which keeps objects.
      subst hkind
      obtain ⟨key, scalarKind, scalarTraits, inner, override, hf, hnames, hmisfit⟩ :=
        exists_misfit_object keys scalar
      refine ⟨override, .obj [(key, .obj [(inner, .num scalarKind.misfit)])], fun name => ?_⟩
      simp only [canonicalValue, FieldSchema.element?, innerOverrides_named]
      rw [hnames.canonicalMembers_eq keys hf]
      refine .entry List.mem_cons_self ?_
      cases hmisfit with | object hmisfit => exact .object hmisfit
    · have hfield : ∃ key f, (key, f) ∈ fields ∧ ¬ f.Coerced := by
        by_contra hnone
        refine hcoerced (.objects hkind (fun key f hf => ?_))
        by_contra hf'
        exact hnone ⟨key, f, hf, hf'⟩
      obtain ⟨key, f, hf, hf'⟩ := hfield
      obtain ⟨override, value, hmisfit⟩ := ih key f hf (innerKeys key f hf) (innerScalars key f hf) hf'
      obtain ⟨inner, hne, hfresh⟩ := ObjectSchema.exists_freshCanonicalName fields
      have hnames := names_fieldOverride fields key override hne hfresh
      refine ⟨fieldOverride key (override.named inner), .arr [.obj [(key, value)]], fun name => ?_⟩
      simp only [canonicalValue, FieldSchema.element?, innerOverrides_named, canonicalItems]
      rw [hnames.canonicalMembers_eq keys hf]
      exact .item hkind List.mem_cons_self (.object (hnames.misfit keys hf (hmisfit inner)))

/-- All numbers that users are given are of the kinds of their positions, whatever the overrides and
the state of the provider are, if the schema is coerced throughout. If it is not, there are
overrides and a state for which a number is not. -/
theorem numbers_canonicalOutputs (schema : ObjectSchema) (hkeys : schema.DistinctKeys) :
    (schema.Coerced → ∀ (overrides : FieldOverrides) (raw : Properties),
      ¬ schema.Misfit (fun key => overrides.lookup key) (canonicalOutputs raw schema overrides)) ∧
    (schema.HasScalars → ¬ schema.Coerced → ∃ (overrides : FieldOverrides) (raw : Properties),
      schema.Misfit (fun key => overrides.lookup key) (canonicalOutputs raw schema overrides)) := by
  constructor
  · intro hcoerced overrides raw
    exact not_misfit_canonicalMembers (fun key f hf value => (hcoerced key f hf).not_misfit _ value) raw
  · intro hscalars hcoerced
    simp only [ObjectSchema.Coerced, not_forall] at hcoerced
    obtain ⟨key, f, hf, hf'⟩ := hcoerced
    obtain ⟨override, value, hmisfit⟩ :=
      FieldSchema.exists_misfit (hkeys.inner key f hf) (hscalars key f hf) hf'
    obtain ⟨name, hne, hfresh⟩ := schema.exists_freshCanonicalName
    have hnames := names_singleton schema key override hne hfresh
    refine ⟨[(key, override.named name)], [(key, value)], ?_⟩
    rw [canonicalOutputs, hnames.canonicalMembers_eq hkeys.keys hf]
    exact hnames.misfit hkeys.keys hf (hmisfit name)

theorem ruleSchema_coerced : ruleSchema.Coerced := by
  intro key f h
  obtain ⟨-, rfl⟩ | ⟨-, rfl⟩ := mem_ruleSchema h
  · exact .scalar
  · refine .objects (by decide) (fun key f h => ?_)
    obtain ⟨-, rfl⟩ | ⟨-, rfl⟩ := mem_ruleFields h <;> exact .scalar

def tallySchema : ObjectSchema := [("tallies", .collection .map (.field (.scalar .int {})) {})]

theorem mem_tallySchema {key : String} {f : FieldSchema} (h : (key, f) ∈ tallySchema) :
    f = .collection .map (.field (.scalar .int {})) {} := by
  simp only [tallySchema, List.mem_singleton, Prod.mk.injEq] at h
  exact h.2

theorem tallySchema_distinctKeys : tallySchema.DistinctKeys where
  keys := by decide
  inner := by
    intro key f h
    rw [mem_tallySchema h]
    exact .field .scalar

theorem tallySchema_hasScalars : tallySchema.HasScalars := by
  intro key f h
  rw [mem_tallySchema h]
  exact .field .scalar

theorem tallySchema_not_coerced : ¬ tallySchema.Coerced := by
  intro h
  cases h "tallies" _ List.mem_cons_self with | scalars notMap => exact notMap rfl

/-- The numbers of rules fit, those of tallies may not. -/
theorem ruleSchema_fits_tallySchema_misfits :
    (∀ (overrides : FieldOverrides) (raw : Properties),
      ¬ ruleSchema.Misfit (fun key => overrides.lookup key) (canonicalOutputs raw ruleSchema overrides)) ∧
    ∃ (overrides : FieldOverrides) (raw : Properties),
      tallySchema.Misfit (fun key => overrides.lookup key) (canonicalOutputs raw tallySchema overrides) :=
  ⟨(numbers_canonicalOutputs ruleSchema ruleSchema_distinctKeys).1 ruleSchema_coerced,
    (numbers_canonicalOutputs tallySchema tallySchema_distinctKeys).2 tallySchema_hasScalars
      tallySchema_not_coerced⟩

def tallyState : Properties := [("tallies", .obj [("red", .num (.float (.ofDecimal false 15 (-1))))])]

/-- Users are given one and a half as it is, where the provider would be given one. -/
theorem tallyState_misfit :
    canonicalOutputs tallyState tallySchema [] = tallyState ∧
      tallySchema.Misfit (fun key => ([] : FieldOverrides).lookup key)
        (canonicalOutputs tallyState tallySchema []) ∧
      ∀ env, providerInputs tallyState none tallySchema [] env =
        [("tallies", .obj [("red", .num (.int 1))])] := by
  have houtputs : canonicalOutputs tallyState tallySchema [] = tallyState := rfl
  refine ⟨houtputs, ?_, fun env => ?_⟩
  · rw [houtputs]
    refine .member List.mem_cons_self List.mem_cons_self (fun key f hf _ => ?_)
    rw [mem_tallySchema hf]
    refine .entry List.mem_cons_self (.field (.number ?_))
    simp [Number.Fits, ValueKind.isFloat]
  · have hcoerce : Number.coerce (.scalar .int) (.float (.ofDecimal false 15 (-1))) = .int 1 := by
      decide +kernel
    change [("tallies", Json.obj [("red",
      .num (Number.coerce (.scalar .int) (.float (.ofDecimal false 15 (-1)))))])] = _
    rw [hcoerce]

end ProviderSdk
