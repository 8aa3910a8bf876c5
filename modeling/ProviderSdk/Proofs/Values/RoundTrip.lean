import ProviderSdk.Proofs.Values.Translation

/-!
# Round trip of provider inputs

What the provider has been given, translated to canonical names and back, is given to it again.
Every value that stands there has been coerced and translated once, so that a second pass changes
nothing; and a field without a value had no default the first time and has none the second time,
because nothing that is not computed depends on the other properties.
-/

namespace ProviderSdk

variable {env : Environment}

theorem DefaultOverride.value?_eq_of_compute {d : DefaultOverride} (h : d.compute = none) (kind : ValueKind)
    (props : Properties) (env : Environment) :
    d.value? kind props env = (firstEnvValue? kind env d.envVars).or (d.value.map (coerceNumber kind)) := by
  simp [DefaultOverride.value?, h]

theorem DefaultOverride.value?_ofKind {d : DefaultOverride} (h : d.compute = none) {kind : ValueKind}
    {props : Properties} {value : Json} (hv : d.value? kind props env = some value) : value.OfKind kind := by
  rw [value?_eq_of_compute h] at hv
  rcases Option.or_eq_some_iff.mp hv with henv | ⟨_, hliteral⟩
  · exact firstEnvValue?_ofKind henv
  · obtain ⟨v, _, rfl⟩ := Option.map_eq_some_iff.mp hliteral
    exact coerceNumber_ofKind kind v

variable {f : FieldSchema} {override : Option FieldOverride}

theorem compute_eq_none (h : ∀ o, override = some o → o.NothingComputed) {d : DefaultOverride}
    (hd : override.bind (fun o => o.default) = some d) : d.compute = none := by
  obtain ⟨o, rfl, hdefault⟩ := Option.bind_eq_some_iff.mp hd
  obtain ⟨default, _, _⟩ := h o rfl
  exact default d hdefault

theorem resolveDefault_none_old (new : Option Json) (props : Properties) :
    resolveDefault f override none new props env =
      match new with
      | some value => some (coerceNumber f.kind value)
      | none =>
        ((override.bind (fun o => o.default)).bind (fun d => d.value? f.kind props env)).or
          f.schemaDefault? := by
  cases new <;> rfl

theorem resolveDefault_props (h : ∀ o, override = some o → o.NothingComputed) (props props' : Properties) :
    resolveDefault f override none none props env = resolveDefault f override none none props' env := by
  simp only [resolveDefault_none_old]
  congr 1
  apply Option.bind_congr
  intro d hd
  simp only [DefaultOverride.value?_eq_of_compute (compute_eq_none h hd)]

theorem resolveDefault_ofKind (h : ∀ o, override = some o → o.NothingComputed) {new : Option Json}
    {props : Properties} {value : Json} (hv : resolveDefault f override none new props env = some value) :
    value.OfKind f.kind := by
  rw [resolveDefault_none_old] at hv
  cases new with
  | some v =>
    cases hv
    exact coerceNumber_ofKind f.kind v
  | none =>
    rcases Option.or_eq_some_iff.mp hv with hoverride | ⟨_, hschema⟩
    · obtain ⟨d, hd, hvalue⟩ := Option.bind_eq_some_iff.mp hoverride
      exact DefaultOverride.value?_ofKind (compute_eq_none h hd) hvalue
    · exact FieldSchema.schemaDefault?_ofKind hschema

/-- A value that the provider has been given for a field comes back as it is. -/
def FieldSchema.RoundTrips (env : Environment) (f : FieldSchema) (override : Option FieldOverride) : Prop :=
  ∀ value, value.OfKind f.kind →
    providerValue env f override none
        (coerceNumber f.kind (canonicalValue f override (providerValue env f override none value))) =
      providerValue env f override none value

variable {fields : ObjectSchema} {overrides : OverrideLookup}

theorem rawFor_providerMembers (hkeys : (fields.map Prod.fst).Nodup) (olds : Option Properties)
    (news : Properties) : Properties.RawFor fields (providerMembers env fields overrides olds news) where
  keys := hkeys.sublist (keys_providerMembers_sublist olds news)
  active := by
    intro key hkey
    obtain ⟨⟨k, v⟩, hmem, rfl⟩ := List.mem_map.mp hkey
    obtain ⟨f, hf, hv⟩ := mem_providerMembers.mp hmem
    exact ⟨f, hf, isRemoved_eq_false_of_providerMember? hv⟩

/-- If every field gives its value back, so does the whole object. -/
theorem providerMembers_canonicalMembers (hkeys : (fields.map Prod.fst).Nodup)
    (hnames : fields.NamesInjective overrides) (hcomputed : overrides.NothingComputed)
    (hfields : ∀ key f, (key, f) ∈ fields → f.isRemoved = false → f.RoundTrips env (overrides key))
    (news : Properties) :
    providerMembers env fields overrides none (Json.Members.sorted
        (canonicalMembers fields overrides (providerMembers env fields overrides none news))) =
      providerMembers env fields overrides none news := by
  let r := providerMembers env fields overrides none news
  let back := Json.Members.sorted (canonicalMembers fields overrides r)
  change providerMembers env fields overrides none back = providerMembers env fields overrides none news
  have hraw : Properties.RawFor fields r := rawFor_providerMembers hkeys none news
  rw [providerMembers_eq, providerMembers_eq]
  apply List.filterMap_congr
  rintro ⟨key, f⟩ hf
  congr 1
  cases hremoved : f.isRemoved with
  | true => simp [providerMember?, hremoved]
  | false =>
    have hback : back.lookup (propertyName key (overrides key)) =
        (r.lookup key).map (canonicalValue f (overrides key)) :=
      lookup_canonicalMembers hkeys hnames hraw hf hremoved
    have hr : r.lookup key = providerMember? env overrides none news key f :=
      lookup_providerMembers hkeys hf
    have hnothing : ∀ o, overrides key = some o → o.NothingComputed := hcomputed key
    simp only [providerMember?, hremoved, Option.bind_none, Bool.false_eq_true, if_false] at hr ⊢
    rw [hback, hr]
    cases hv : resolveDefault f (overrides key) none
        (news.lookup (propertyName key (overrides key))) news env with
    | some value =>
      have hkind := resolveDefault_ofKind hnothing hv
      simp only [Option.map_some, resolveDefault_none_old]
      exact congrArg some (hfields key f hf hremoved value hkind)
    | none =>
      -- A given value would have been taken, so the first pass found neither a value nor a default.
      have hnew : news.lookup (propertyName key (overrides key)) = none := by
        cases hn : news.lookup (propertyName key (overrides key)) with
        | none => rfl
        | some v => simp [resolveDefault_none_old, hn] at hv
      rw [hnew] at hv
      rw [Option.map_none, Option.map_none, resolveDefault_props hnothing back news, hv]
      rfl

theorem canonicalValue_scalar (kind : ScalarKind) (traits : FieldTraits) (value : Json) :
    canonicalValue (.scalar kind traits) override value = coerceNumber (.scalar kind) value := by
  cases value <;> rfl

/-- A value that no object is read from stays as it is on both ways. -/
private theorem roundTrips_unread {kind : CollectionKind} {element : Element} {traits : FieldTraits}
    {value : Json} (hprovider : providerHeld env element override none value = value)
    (hcanonical : canonicalValue (.collection kind element traits) override value =
      coerceNumber (.collection kind) value)
    (hkind : value.OfKind (.collection kind)) :
    providerValue env (.collection kind element traits) override none (coerceNumber (.collection kind)
        (canonicalValue (.collection kind element traits) override
          (providerValue env (.collection kind element traits) override none value))) =
      providerValue env (.collection kind element traits) override none value := by
  have hvalue : coerceNumber (.collection kind) value = value := hkind
  simp only [providerValue, hprovider, hcanonical, hvalue]

theorem FieldSchema.roundTrips (hkeys : f.DistinctKeys) (hnames : f.DistinctNames override)
    (hcomputed : ∀ o, override = some o → o.NothingComputed) : f.RoundTrips env override := by
  induction f generalizing override with
  | scalar kind traits =>
    intro value hvalue
    have h : coerceNumber (.scalar kind) value = value := hvalue
    simp only [providerValue, canonicalValue_scalar, FieldSchema.kind, h]
  | field kind f traits =>
    intro value hvalue
    cases value with
    | arr items =>
      simp only [providerValue, providerHeld, canonicalValue, FieldSchema.element?, coerceNumber_arr,
        List.map_map]
      congr 1
      apply List.map_congr_left
      intro item _
      simp
    | obj members =>
      simp only [providerValue, providerHeld, canonicalValue, FieldSchema.element?, coerceNumber_obj,
        List.map_map]
      congr 1
      apply List.map_congr_left
      intro m _
      simp
    | _ => exact roundTrips_unread rfl rfl hvalue
  | object kind fields traits ih =>
    cases hkeys with | object keys innerKeys =>
    cases hnames with | object names innerNames =>
    have hinner := FieldOverride.NothingComputed.inner hcomputed
    have hobject := @providerMembers_canonicalMembers env _ _ keys names hinner
      (fun key f hf hremoved =>
        ih key f hf (innerKeys key f hf) (innerNames key f hf hremoved) (hinner key))
    intro value hvalue
    cases value with
    | obj members =>
      simp only [providerValue, providerHeld, canonicalValue, FieldSchema.element?, coerceNumber_obj,
        Json.object?, Option.bind_none]
      exact congrArg Json.obj (hobject members)
    | arr items =>
      simp only [providerValue, providerHeld, canonicalValue, FieldSchema.element?, coerceNumber_arr,
        canonicalItems_eq_map, List.map_map]
      congr 1
      apply List.map_congr_left
      intro item _
      cases item with
      | obj members => exact congrArg Json.obj (hobject members)
      | _ => rfl
    | _ => exact roundTrips_unread rfl rfl hvalue

/-- What the provider has been given without old values comes back to it as it is when it is
translated to canonical names and back in the same environment. -/
theorem providerInputs_canonicalOutputs_providerInputs (schema : ObjectSchema) (overrides : FieldOverrides)
    (news : Properties) (env : Environment) (hkeys : schema.DistinctKeys)
    (hnames : schema.DistinctNames (fun key => overrides.lookup key))
    (hcomputed : overrides.NothingComputed) :
    providerInputs (canonicalOutputs (providerInputs news none schema overrides env) schema overrides) none
        schema overrides env =
      providerInputs news none schema overrides env := by
  have hlookup := FieldOverrides.NothingComputed.lookup hcomputed
  apply providerMembers_canonicalMembers hkeys.keys hnames.names hlookup
  intro key f hf hremoved
  exact FieldSchema.roundTrips (hkeys.inner key f hf) (hnames.inner key f hf hremoved) (hlookup key)

def ruleNews : Properties := [("rules", .arr [.obj [("share", .num (.int 3)), ("target", .str "arn")]])]

def ruleEnvironment : Environment := fun name => if name = "REGION" then some "south" else none

theorem ruleInputs_roundTrip :
    providerInputs ruleNews none ruleSchema ruleOverrides ruleEnvironment = ruleInputs ∧
      providerInputs (canonicalOutputs ruleInputs ruleSchema ruleOverrides) none ruleSchema ruleOverrides
        ruleEnvironment = ruleInputs := by
  have hinputs : providerInputs ruleNews none ruleSchema ruleOverrides ruleEnvironment = ruleInputs := by rfl
  have hround :=
    providerInputs_canonicalOutputs_providerInputs ruleSchema ruleOverrides ruleNews ruleEnvironment
    ruleSchema_distinctKeys ruleSchema_distinctNames ruleOverrides_nothingComputed
  rw [hinputs] at hround
  exact ⟨hinputs, hround⟩

end ProviderSdk
