import ProviderSdk.Proofs.Values.Retention
import ProviderSdk.Proofs.Values.RoundTrip

/-!
# Sticky defaults

A default that was chosen when a resource was created stays when it is updated, whatever the
environment has become. The old values are what the provider was given, in canonical names; where
the user gives nothing the old value is taken, and it goes back to the provider as it came from
there. Where the user gives an object, the same holds of its fields, since their old values stand in
the old object. An array of objects has no old values for its items, so that none may be given.
-/

namespace ProviderSdk

/-- All that stands in a value stands in another one as it is: objects may have more members there,
at every depth, and arrays have the same items, objects among them with more members. -/
inductive Json.StandsIn : Json → Json → Prop where
  | same (v : Json) : Json.StandsIn v v
  | items {items others : List Json} (each : List.Forall₂ Json.StandsIn items others) :
      Json.StandsIn (.arr items) (.arr others)
  | members {members others : Properties} (keys : ∀ key v, members.lookup key = some v →
    ∃ w, others.lookup key = some w)
      (values : ∀ key v w, members.lookup key = some v → others.lookup key = some w → Json.StandsIn v w) :
      Json.StandsIn (.obj members) (.obj others)

/-- Every member stands under its key among others. -/
def Properties.StandIn (members others : Properties) : Prop :=
  ∀ key v, members.lookup key = some v → ∃ w, others.lookup key = some w ∧ v.StandsIn w

theorem Properties.StandIn.obj {members others : Properties} (h : members.StandIn others) :
    Json.StandsIn (.obj members) (.obj others) := by
  refine .members ?_ ?_
  · intro key v hv
    obtain ⟨w, hw, _⟩ := h key v hv
    exact ⟨w, hw⟩
  · intro key v w hv hw
    obtain ⟨w', hw', hstands⟩ := h key v hv
    cases hw.symm.trans hw'
    exact hstands

/-- A value for a field has no array where the field holds objects, nor has any object in it where
fields of that object are translated. -/
inductive FieldSchema.WithoutObjectArrays : FieldSchema → Option FieldOverride → Json → Prop where
  | scalar {kind traits override value} : WithoutObjectArrays (.scalar kind traits) override value
  | field {kind f traits override value} :
    WithoutObjectArrays (.collection kind (.field f) traits) override value
  | object {kind fields traits override value} (notArray : ∀ items, value ≠ .arr items)
      (inner : ∀ members, value = .obj members → ∀ key f v, (key, f) ∈ fields → f.isRemoved = false →
        members.lookup (propertyName key (innerOverrides override key)) = some v →
          WithoutObjectArrays f (innerOverrides override key) v) :
      WithoutObjectArrays (.collection kind (.object fields) traits) override value

def ObjectSchema.WithoutObjectArrays (fields : ObjectSchema) (overrides : OverrideLookup)
    (news : Properties) : Prop :=
  ∀ key f v, (key, f) ∈ fields → f.isRemoved = false →
    news.lookup (propertyName key (overrides key)) = some v → f.WithoutObjectArrays (overrides key) v

theorem FieldSchema.WithoutObjectArrays.coerceNumber {f : FieldSchema} {override : Option FieldOverride}
    {value : Json} (h : f.WithoutObjectArrays override value) (kind : ValueKind) :
    f.WithoutObjectArrays override (coerceNumber kind value) := by
  cases value with
  | num n =>
    cases h with
    | scalar => exact .scalar
    | field => exact .field
    | object =>
      refine .object ?_ ?_
      · intro items heq
        cases heq
      · intro members heq
        cases heq
  | _ => exact h

variable {env later : Environment} {fields : ObjectSchema} {overrides : OverrideLookup}

theorem canonicalValue_ofKind (f : FieldSchema) (override : Option FieldOverride) (value : Json) :
    (canonicalValue f override value).OfKind f.kind := by
  cases value with
  | obj members =>
    rw [canonicalValue]
    split <;> exact coerceNumber_obj _ _
  | arr items =>
    rw [canonicalValue]
    split <;> exact coerceNumber_arr _ _
  | null => exact coerceNumber_ofKind f.kind .null
  | bool b => exact coerceNumber_ofKind f.kind (.bool b)
  | num n => exact coerceNumber_ofKind f.kind (.num n)
  | str s => exact coerceNumber_ofKind f.kind (.str s)

/-- Where a default has been found, an old value is kept. -/
theorem resolveDefault_old {f : FieldSchema} {override : Option FieldOverride} {props : Properties}
    {given : Json} (h : resolveDefault f override none none props env = some given) (old : Json) :
    resolveDefault f override (some old) none props later = some old := by
  have hdefault : ((override.bind (fun o => o.default)).isSome || f.traits.default.isSome) = true := by
    cases hoverride : override.bind (fun o => o.default) with
    | some d => rfl
    | none =>
      cases hschema : f.traits.default with
      | some v => rfl
      | none => simp [resolveDefault_none_old, hoverride, FieldSchema.schemaDefault?, hschema] at h
  simp only [resolveDefault, hdefault]

theorem exists_given_of_lookup (hcomputed : overrides.NothingComputed) {news : Properties} {key : String}
    {v : Json} (h : (providerMembers env fields overrides none news).lookup key = some v) :
    ∃ f given, (key, f) ∈ fields ∧ f.isRemoved = false ∧
      resolveDefault f (overrides key) none (news.lookup (propertyName key (overrides key))) news
        env = some given ∧
      given.OfKind f.kind ∧ v = providerValue env f (overrides key) none given := by
  obtain ⟨f, hf, hmember⟩ := mem_providerMembers.mp (Json.mem_of_lookup h)
  have hactive := isRemoved_eq_false_of_providerMember? hmember
  simp only [providerMember?, hactive, Bool.false_eq_true, if_false, Option.bind_none] at hmember
  obtain ⟨given, hgiven, rfl⟩ := Option.map_eq_some_iff.mp hmember
  exact ⟨f, given, hf, hactive, hgiven, resolveDefault_ofKind (hcomputed key) hgiven, rfl⟩

/-- What the provider has been given for a field stands in what it is given when that comes back to it. -/
def FieldSchema.Returns (env later : Environment) (f : FieldSchema) (override : Option FieldOverride) :
    Prop :=
  ∀ given old, given.OfKind f.kind →
    (providerValue env f override none given).StandsIn
      (returned later f override old (providerValue env f override none given))

/-- If every field comes back, so does the whole object. -/
theorem standIn_returnedMembers (hkeys : (fields.map Prod.fst).Nodup)
    (hnames : fields.NamesInjective overrides) (hcomputed : overrides.NothingComputed)
    (hfields : ∀ key f, (key, f) ∈ fields → f.isRemoved = false → f.Returns env later (overrides key))
    (olds : Option Properties) (news : Properties) :
    (providerMembers env fields overrides none news).StandIn
      (returnedMembers later fields overrides olds (providerMembers env fields overrides none news)) := by
  intro key v hv
  obtain ⟨f, given, hf, hactive, _, hkind, rfl⟩ := exists_given_of_lookup hcomputed hv
  have hraw : Properties.RawFor fields (providerMembers env fields overrides none news) :=
    rawFor_providerMembers hkeys none news
  have hmem :=
    (@mem_returnedMembers later _ _ hkeys hnames olds _ hraw _ _ _ _ hf (Json.mem_of_lookup hv)).mpr rfl
  have hnodup : ((returnedMembers later fields overrides olds
      (providerMembers env fields overrides none news)).map Prod.fst).Nodup :=
    hkeys.sublist (keys_providerMembers_sublist _ _)
  exact ⟨_, Json.lookup_of_mem hnodup hmem, hfields key f hf hactive given _ hkind⟩

/-- Where no object is translated, neither the environment nor the old value matters. -/
theorem FieldSchema.Returns.of_unread {f : FieldSchema} {override : Option FieldOverride}
    (hkeys : f.DistinctKeys) (hnames : f.DistinctNames override)
    (hcomputed : ∀ o, override = some o → o.NothingComputed) {given : Json}
    (hgiven : given.OfKind f.kind) {old : Option Json}
    (hunread : ∀ v, v = coerceNumber f.kind (canonicalValue f override
      (providerValue env f override none given)) →
      providerValue later f override old v = providerValue env f override none v) :
    (providerValue env f override none given).StandsIn
      (returned later f override old (providerValue env f override none given)) := by
  rw [returned, hunread _ rfl, FieldSchema.roundTrips hkeys hnames hcomputed given hgiven]
  exact .same _

theorem FieldSchema.returns {f : FieldSchema} {override : Option FieldOverride} (hkeys : f.DistinctKeys)
    (hnames : f.DistinctNames override) (hcomputed : ∀ o, override = some o → o.NothingComputed) :
    f.Returns env later override := by
  intro given old hgiven
  -- By induction on the field. Only objects are translated, and in an array of them no item has an old value.
  induction f generalizing override given old with
  | scalar kind traits => exact Returns.of_unread hkeys hnames hcomputed hgiven (fun _ _ => rfl)
  | field kind f traits =>
    refine Returns.of_unread hkeys hnames hcomputed hgiven (fun v _ => ?_)
    cases v <;> rfl
  | object kind fields traits ih =>
    have hround := @Returns.of_unread env later _ _ hkeys hnames hcomputed given hgiven old
    cases hkeys with | object keys innerKeys =>
    cases hnames with | object names innerNames =>
    have hinner := FieldOverride.NothingComputed.inner hcomputed
    have hobject :=
      @standIn_returnedMembers env later _ _ keys names hinner (fun key f hf hactive given old =>
      ih key f hf (innerKeys key f hf) (innerNames key f hf hactive) (hinner key) given old)
    cases given with
    | obj members =>
      simp only [providerValue, providerHeld, returned_object]
      exact (hobject _ members).obj
    | arr items =>
      simp only [providerValue, providerHeld, returned_objects, List.map_map]
      refine .items (List.forall₂_map_left_iff.mpr (List.forall₂_map_right_iff.mpr
        (List.forall₂_same.mpr ?_)))
      intro item _
      cases item with
      | obj members => exact (hobject none members).obj
      | _ => exact .same _
    | _ =>
      refine hround (fun v hv => ?_)
      subst hv
      rfl

/-- What the provider has been given for a value of the user stands in what it is given for that
value the second time, when the old value is what it was given. -/
def FieldSchema.Stays (env later : Environment) (f : FieldSchema) (override : Option FieldOverride)
    (value : Json) :
    Prop :=
  (providerValue env f override none value).StandsIn
    (providerValue later f override (some (canonicalValue f override
      (providerValue env f override none value))) value)

/-- The members of an object that the provider is given the second time, when the old values are
those of the first. -/
def updatedMembers (env later : Environment) (fields : ObjectSchema) (overrides : OverrideLookup)
    (news : Properties) :
    Properties :=
  providerMembers later fields overrides
    (some (Json.Members.sorted (canonicalMembers fields overrides
      (providerMembers env fields overrides none news)))) news

/-- If given values stay and values that come back are kept, all members of an object stay. -/
theorem standIn_updatedMembers (hkeys : (fields.map Prod.fst).Nodup)
    (hnames : fields.NamesInjective overrides) (hcomputed : overrides.NothingComputed)
    (hreturns : ∀ key f, (key, f) ∈ fields → f.isRemoved = false → f.Returns env later (overrides key))
    {news : Properties}
    (hstays : ∀ key f v, (key, f) ∈ fields → f.isRemoved = false →
      news.lookup (propertyName key (overrides key)) = some v →
        f.Stays env later (overrides key) (coerceNumber f.kind v)) :
    (providerMembers env fields overrides none news).StandIn
      (updatedMembers env later fields overrides news) := by
  intro key v hv
  obtain ⟨f, given, hf, hactive, hgiven, hkind, rfl⟩ := exists_given_of_lookup hcomputed hv
  have hraw : Properties.RawFor fields (providerMembers env fields overrides none news) :=
    rawFor_providerMembers hkeys none news
  have hold := lookup_canonicalMembers hkeys hnames hraw hf hactive
  rw [hv, Option.map_some] at hold
  rw [updatedMembers, lookup_providerMembers hkeys hf]
  simp only [providerMember?, hactive, Bool.false_eq_true, if_false, Option.bind_some, hold]
  cases hnew : news.lookup (propertyName key (overrides key)) with
  | some new =>
    rw [hnew, resolveDefault_none_old] at hgiven
    cases hgiven
    exact ⟨_, rfl, hstays key f new hf hactive hnew⟩
  | none =>
    -- The first time there was a default, so the second time the old value is taken and comes back unchanged.
    rw [hnew] at hgiven
    rw [resolveDefault_old hgiven, Option.map_some]
    have hback := canonicalValue_ofKind f (overrides key) (providerValue env f (overrides key) none given)
    have hreturned := hreturns key f hf hactive given
      (some (canonicalValue f (overrides key) (providerValue env f (overrides key) none given))) hkind
    rw [returned, hback] at hreturned
    exact ⟨_, rfl, hreturned⟩

theorem FieldSchema.stays {f : FieldSchema} {override : Option FieldOverride} (hkeys : f.DistinctKeys)
    (hnames : f.DistinctNames override) (hcomputed : ∀ o, override = some o → o.NothingComputed)
    {value : Json}
    (harrays : f.WithoutObjectArrays override value) : f.Stays env later override value := by
  induction f generalizing override value with
  | scalar kind traits => exact .same _
  | field kind f traits => cases value <;> exact .same _
  | object kind fields traits ih =>
    cases hkeys with | object keys innerKeys =>
    cases hnames with | object names innerNames =>
    cases harrays with | object notArray innerArrays =>
    have hinner := FieldOverride.NothingComputed.inner hcomputed
    cases value with
    | arr items => exact absurd rfl (notArray items)
    | obj members =>
      have hmembers := @standIn_updatedMembers env later _ _ keys names hinner
        (fun key f hf hactive =>
          FieldSchema.returns (innerKeys key f hf) (innerNames key f hf hactive) (hinner key))
        members
        (fun key f v hf hactive hv =>
          ih key f hf (innerKeys key f hf) (innerNames key f hf hactive) (hinner key)
          ((innerArrays members rfl key f v hf hactive hv).coerceNumber f.kind))
      exact hmembers.obj
    | _ => exact .same _

/-- What the provider was given stands in what it is given when the same properties are given again
with the old values that it came to, whatever the environment has become. -/
theorem providerInputs_standIn_updated (schema : ObjectSchema) (overrides : FieldOverrides)
    (news : Properties) (env later : Environment) (hkeys : schema.DistinctKeys)
    (hnames : schema.DistinctNames (fun key => overrides.lookup key)) (hcomputed : overrides.NothingComputed)
    (harrays : schema.WithoutObjectArrays (fun key => overrides.lookup key) news) :
    (providerInputs news none schema overrides env).StandIn
      (providerInputs news (some (canonicalOutputs (providerInputs news none schema overrides env)
        schema overrides))
        schema overrides later) := by
  have hlookup := FieldOverrides.NothingComputed.lookup hcomputed
  apply standIn_updatedMembers hkeys.keys hnames.names hlookup
  · intro key f hf hactive
    exact FieldSchema.returns (hkeys.inner key f hf) (hnames.inner key f hf hactive) (hlookup key)
  · intro key f v hf hactive hv
    exact FieldSchema.stays (hkeys.inner key f hf) (hnames.inner key f hf hactive) (hlookup key)
      ((harrays key f v hf hactive hv).coerceNumber f.kind)

def siteFields : ObjectSchema := [("label", .scalar .string {}), ("region", .scalar .string {})]

/-- A list of sites, a site of its own, and a tier, with defaults at both levels. -/
def siteSchema : ObjectSchema :=
  [("mirrors", .collection .list (.object siteFields) {}),
    ("site", .collection .list (.object siteFields) {}), ("tier", .scalar .string {})]

/-- The region of a site comes from the environment, the mirrors are one labelled site, and so does
the tier. -/
def siteOverrides : FieldOverrides :=
  [("mirrors", { fields := [("region", { default := some { envVars := ["REGION"] } })]
                 default := some { value := some (.arr [.obj [("label", .str "spare")]]) } }),
    ("site", { fields := [("region", { default := some { envVars := ["REGION"] } })] }),
    ("tier", { default := some { envVars := ["TIER"] } })]

def siteNews : Properties := [("site", .obj [("label", .str "main")])]

def siteEnvironment (region tier : Option String) : Environment := fun name =>
  if name = "REGION" then region else if name = "TIER" then tier else none

theorem mem_siteFields {key : String} {f : FieldSchema} (h : (key, f) ∈ siteFields) :
    f = .scalar .string {} := by
  simp only [siteFields, List.mem_cons, Prod.mk.injEq, List.not_mem_nil, or_false] at h
  obtain ⟨-, rfl⟩ | ⟨-, rfl⟩ := h <;> rfl

theorem mem_siteSchema {key : String} {f : FieldSchema} (h : (key, f) ∈ siteSchema) :
    ((key = "mirrors" ∨ key = "site") ∧ f = .collection .list (.object siteFields) {}) ∨
      (key = "tier" ∧ f = .scalar .string {}) := by
  simp only [siteSchema, List.mem_cons, Prod.mk.injEq, List.not_mem_nil, or_false] at h
  obtain ⟨rfl, rfl⟩ | ⟨rfl, rfl⟩ | ⟨rfl, rfl⟩ := h <;> simp

theorem siteSchema_distinctKeys : siteSchema.DistinctKeys where
  keys := by decide
  inner := by
    intro key f h
    obtain ⟨-, rfl⟩ | ⟨-, rfl⟩ := mem_siteSchema h
    · refine .object (by decide) ?_
      intro key f h
      rw [mem_siteFields h]
      exact .scalar
    · exact .scalar

theorem siteSchema_distinctNames : siteSchema.DistinctNames (fun key => siteOverrides.lookup key) where
  names := .of_nodup (by decide)
  inner := by
    intro key f h _
    obtain ⟨hkey, rfl⟩ | ⟨-, rfl⟩ := mem_siteSchema h
    · refine .object ?_ ?_
      · obtain rfl | rfl := hkey <;> exact .of_nodup (by decide)
      · intro key f h _
        rw [mem_siteFields h]
        exact .scalar
    · exact .scalar

theorem siteOverrides_nothingComputed : siteOverrides.NothingComputed := by
  intro key o h
  simp only [siteOverrides, List.mem_cons, Prod.mk.injEq, List.not_mem_nil, or_false] at h
  obtain ⟨-, rfl⟩ | ⟨-, rfl⟩ | ⟨-, rfl⟩ := h
  · refine .intro (by simp) (by simp) ?_
    intro key f h
    obtain ⟨-, rfl⟩ := Prod.mk.inj (List.mem_singleton.mp h)
    exact .intro (by simp) (by simp) (by simp)
  · refine .intro (by simp) (by simp) ?_
    intro key f h
    obtain ⟨-, rfl⟩ := Prod.mk.inj (List.mem_singleton.mp h)
    exact .intro (by simp) (by simp) (by simp)
  · exact .intro (by simp) (by simp) (by simp)

theorem siteNews_withoutObjectArrays :
    siteSchema.WithoutObjectArrays (fun key => siteOverrides.lookup key) siteNews := by
  intro key f v hf _ hv
  obtain ⟨hkey, rfl⟩ | ⟨-, rfl⟩ := mem_siteSchema hf
  · obtain rfl | rfl := hkey
    · have hnone : siteNews.lookup (propertyName "mirrors" (siteOverrides.lookup "mirrors")) = none := by
        decide
      rw [hnone] at hv
      cases hv
    · have hsite : v = .obj [("label", .str "main")] :=
        (Option.some.inj (hv.symm.trans (by rfl)) : v = .obj [("label", .str "main")])
      subst hsite
      refine .object ?_ ?_
      · intro items heq
        cases heq
      · intro members _ key f v hf _ _
        rw [mem_siteFields hf]
        exact .scalar
  · exact .scalar

/-- The first region stays, in the site that is given and in the mirror that is a default, when
another one has come into the environment. The tier, which had no default the first time, is added.
-/
theorem siteInputs_standIn_updated :
    siteSchema.DistinctKeys ∧ siteSchema.DistinctNames (fun key => siteOverrides.lookup key) ∧
      siteOverrides.NothingComputed ∧ siteSchema.WithoutObjectArrays
        (fun key => siteOverrides.lookup key) siteNews ∧
      ∃ first second,
        providerInputs siteNews none siteSchema siteOverrides (siteEnvironment (some "south") none) = first ∧
        first = [("mirrors", .arr [.obj [("label", .str "spare"), ("region", .str "south")]]),
          ("site", .obj [("label", .str "main"), ("region", .str "south")])] ∧
        providerInputs siteNews (some (canonicalOutputs first siteSchema siteOverrides))
          siteSchema siteOverrides
          (siteEnvironment (some "north") (some "gold")) = second ∧
        second.lookup "tier" = some (.str "gold") ∧ first.StandIn second := by
  have hstand :=
    providerInputs_standIn_updated siteSchema siteOverrides siteNews (siteEnvironment (some "south") none)
    (siteEnvironment (some "north") (some "gold")) siteSchema_distinctKeys siteSchema_distinctNames
    siteOverrides_nothingComputed siteNews_withoutObjectArrays
  exact ⟨siteSchema_distinctKeys, siteSchema_distinctNames, siteOverrides_nothingComputed,
    siteNews_withoutObjectArrays, _, _, rfl, rfl, rfl, rfl, hstand⟩

end ProviderSdk
