import ProviderSdk.Proofs.Values.Translation

/-!
# State that is kept

Whether a state of the provider, translated to canonical names and back, still has every key and
every item. It does for exactly those schemas that have no map of objects where objects are
translated: such a map is taken for one object, so that entries whose key is not a field of it are
lost.
-/

namespace ProviderSdk

mutual

/-- All that stands in a value stands in another one as well, numbers possibly brought to a kind. -/
def Json.KeptIn : Json → Json → Prop
  | .num n, w => w = .num n ∨ ∃ kind, w = .num (n.coerce kind)
  | .arr items, w => ∃ others, w = .arr others ∧ Json.ItemsKeptIn items others
  | .obj members, w => ∃ others, w = .obj others ∧ Json.MembersKeptIn members others
  | v, w => w = v
  termination_by structural v => v

def Json.ItemsKeptIn : List Json → List Json → Prop
  | [], others => others = []
  | item :: rest, others =>
    ∃ other more, others = other :: more ∧ item.KeptIn other ∧ Json.ItemsKeptIn rest more
  termination_by structural items => items

def Json.MembersKeptIn : List (String × Json) → Properties → Prop
  | [], _ => True
  | (key, v) :: rest, others => (∃ w, (key, w) ∈ others ∧ v.KeptIn w) ∧ Json.MembersKeptIn rest others
  termination_by structural members => members

end

namespace Json

theorem itemsKeptIn_map {items : List Json} {g : Json → Json} (h : ∀ item ∈ items, item.KeptIn (g item)) :
    ItemsKeptIn items (items.map g) := by
  induction items with
  | nil => rfl
  | cons item rest ih =>
    have hrest := ih (fun other hmem => h other (List.mem_cons_of_mem _ hmem))
    exact ⟨g item, rest.map g, rfl, h item List.mem_cons_self, hrest⟩

theorem membersKeptIn_iff {members : List (String × Json)} {others : Properties} :
    MembersKeptIn members others ↔ ∀ key v, (key, v) ∈ members → ∃ w, (key, w) ∈ others ∧ v.KeptIn w := by
  induction members with
  | nil => simp [MembersKeptIn]
  | cons m rest ih =>
    obtain ⟨k, x⟩ := m
    rw [MembersKeptIn, ih]
    constructor
    · rintro ⟨hk, hrest⟩ key v hmem
      rcases List.mem_cons.mp hmem with heq | hmem
      · cases heq
        exact hk
      · exact hrest key v hmem
    · intro h
      exact ⟨h k x List.mem_cons_self, fun key v hmem => h key v (List.mem_cons_of_mem _ hmem)⟩

theorem MembersKeptIn.of_cons {members others : Properties} (m : String × Json)
    (h : MembersKeptIn members others) : MembersKeptIn members (m :: others) := by
  rw [membersKeptIn_iff] at h ⊢
  intro key v hmem
  obtain ⟨w, hw, hv⟩ := h key v hmem
  exact ⟨w, List.mem_cons_of_mem _ hw, hv⟩

mutual

theorem keptIn_refl : (v : Json) → v.KeptIn v
  | .null => rfl
  | .bool _ => rfl
  | .num _ => .inl rfl
  | .str _ => rfl
  | .arr items => ⟨items, rfl, itemsKeptIn_refl items⟩
  | .obj members => ⟨members, rfl, membersKeptIn_refl members⟩
  termination_by structural v => v

theorem itemsKeptIn_refl : (items : List Json) → ItemsKeptIn items items
  | [] => rfl
  | item :: rest => ⟨item, rest, rfl, keptIn_refl item, itemsKeptIn_refl rest⟩
  termination_by structural items => items

theorem membersKeptIn_refl : (members : List (String × Json)) → MembersKeptIn members members
  | [] => trivial
  | (key, v) :: rest =>
    ⟨⟨v, List.mem_cons_self, keptIn_refl v⟩, (membersKeptIn_refl rest).of_cons (key, v)⟩
  termination_by structural members => members

end

theorem keptIn_coerceNumber (kind : ValueKind) (v : Json) : v.KeptIn (coerceNumber kind v) := by
  cases v with
  | num n => exact .inr ⟨kind, rfl⟩
  | _ => exact keptIn_refl _

end Json

mutual

/-- A value of the provider has the form of a field: lists and sets are arrays of elements, maps are
objects with arbitrary keys. -/
inductive FieldSchema.Admits : FieldSchema → Json → Prop where
  | scalar {kind traits value} : FieldSchema.Admits (.scalar kind traits) value
  | items {kind element traits items} (notMap : kind ≠ .map)
      (inner : ∀ item, item ∈ items → Element.Admits element item) :
      FieldSchema.Admits (.collection kind element traits) (.arr items)
  | entries {element traits members} (inner : ∀ key v, (key, v) ∈ members → Element.Admits element v) :
      FieldSchema.Admits (.collection .map element traits) (.obj members)

/-- A value of the provider has the form of an element: objects have keys of fields that are not removed. -/
inductive Element.Admits : Element → Json → Prop where
  | field {f value} (inner : FieldSchema.Admits f value) : Element.Admits (.field f) value
  | object {fields members} (rawFor : Properties.RawFor fields members)
      (inner : ∀ key f v, (key, f) ∈ fields → (key, v) ∈ members → FieldSchema.Admits f v) :
      Element.Admits (.object fields) (.obj members)

end

/-- A state of the provider has the form of a schema. -/
structure ObjectSchema.Admits (schema : ObjectSchema) (raw : Properties) : Prop where
  rawFor : raw.RawFor schema
  inner : ∀ key f v, (key, f) ∈ schema → (key, v) ∈ raw → f.Admits v

/-- Where the objects of a field are translated, none of them is held by a map. What is below a collection of
collections is not translated at all. -/
inductive FieldSchema.NoObjectMaps : FieldSchema → Prop where
  | scalar {kind traits} : NoObjectMaps (.scalar kind traits)
  | field {kind f traits} : NoObjectMaps (.collection kind (.field f) traits)
  | object {kind fields traits} (notMap : kind ≠ .map)
      (inner : ∀ key f, (key, f) ∈ fields → f.isRemoved = false → NoObjectMaps f) :
      NoObjectMaps (.collection kind (.object fields) traits)

/-- Where the objects of a schema are translated, none of them is held by a map. -/
def ObjectSchema.NoObjectMaps (schema : ObjectSchema) : Prop :=
  ∀ key f, (key, f) ∈ schema → f.isRemoved = false → f.NoObjectMaps

/-- What a value of the provider for a field has become when it has been given to users and taken back. -/
def returned (env : Environment) (f : FieldSchema) (override : Option FieldOverride) (old : Option Json)
    (value : Json) : Json :=
  providerValue env f override old (coerceNumber f.kind (canonicalValue f override value))

def returnedMembers (env : Environment) (fields : ObjectSchema) (overrides : OverrideLookup)
    (olds : Option Properties) (raw : Properties) : Properties :=
  providerMembers env fields overrides olds (Json.Members.sorted (canonicalMembers fields overrides raw))

variable {env : Environment} {fields : ObjectSchema} {overrides : OverrideLookup}

theorem mem_returnedMembers (hkeys : (fields.map Prod.fst).Nodup) (hnames : fields.NamesInjective overrides)
    {olds : Option Properties} {raw : Properties} (hraw : raw.RawFor fields) {key : String} {f : FieldSchema}
    {v w : Json} (hf : (key, f) ∈ fields) (hv : (key, v) ∈ raw) :
    (key, w) ∈ returnedMembers env fields overrides olds raw ↔
      w = returned env f (overrides key)
        (olds.bind (fun o => o.lookup (propertyName key (overrides key)))) v := by
  obtain ⟨f', hf', hactive⟩ := hraw.active key (List.mem_map_of_mem hv)
  have hsame : f' = f := Json.eq_of_mem_of_mem hkeys hf' hf
  subst hsame
  have hlookup := lookup_canonicalMembers hkeys hnames hraw hf hactive
  rw [Json.lookup_of_mem hraw.keys hv, Option.map_some] at hlookup
  have hmember : providerMember? env overrides olds
      (Json.Members.sorted (canonicalMembers fields overrides raw)) key f' =
        some (returned env f' (overrides key)
          (olds.bind (fun o => o.lookup (propertyName key (overrides key)))) v) := by
    simp only [providerMember?, hactive, Bool.false_eq_true, if_false, hlookup]
    rfl
  constructor
  · intro hw
    obtain ⟨f'', hf'', hw⟩ := mem_providerMembers.mp hw
    have hsame : f'' = f' := Json.eq_of_mem_of_mem hkeys hf'' hf
    subst hsame
    exact Option.some.inj (hw.symm.trans hmember)
  · rintro rfl
    exact mem_providerMembers.mpr ⟨f', hf, hmember⟩

/-- If every field keeps its value, so does the whole object. -/
theorem membersKeptIn_returnedMembers (hkeys : (fields.map Prod.fst).Nodup)
    (hnames : fields.NamesInjective overrides) {raw : Properties} (hraw : raw.RawFor fields)
    (hfields : ∀ key f v, (key, f) ∈ fields → f.isRemoved = false → (key, v) ∈ raw →
      ∀ old, v.KeptIn (returned env f (overrides key) old v)) (olds : Option Properties) :
    Json.MembersKeptIn raw (returnedMembers env fields overrides olds raw) := by
  rw [Json.membersKeptIn_iff]
  intro key v hv
  obtain ⟨f, hf, hactive⟩ := hraw.active key (List.mem_map_of_mem hv)
  exact ⟨_, (mem_returnedMembers hkeys hnames hraw hf hv).mpr rfl, hfields key f v hf hactive hv _⟩

theorem returned_scalar (kind : ScalarKind) (traits : FieldTraits) (override : Option FieldOverride)
    (old : Option Json) (value : Json) :
    returned env (.scalar kind traits) override old value = coerceNumber (.scalar kind) value := by
  cases value <;> simp [returned, providerValue, canonicalValue, FieldSchema.element?,
    FieldSchema.kind, coerceNumber, ((Number.coerce_fits _ _).coerce_eq)]

theorem returned_items (kind : CollectionKind) (f : FieldSchema) (traits : FieldTraits)
    (override : Option FieldOverride) (old : Option Json) (items : List Json) :
    returned env (.collection kind (.field f) traits) override old (.arr items) =
      .arr (items.map (coerceNumber f.kind)) := by
  simp [returned, providerValue, providerHeld, canonicalValue, FieldSchema.element?]

theorem returned_entries (kind : CollectionKind) (f : FieldSchema) (traits : FieldTraits)
    (override : Option FieldOverride) (old : Option Json) (members : Properties) :
    returned env (.collection kind (.field f) traits) override old (.obj members) =
      .obj (members.map (fun (k, v) => (k, coerceNumber f.kind v))) := by
  simp [returned, providerValue, providerHeld, canonicalValue, FieldSchema.element?]

theorem returned_object (kind : CollectionKind) (fields : ObjectSchema) (traits : FieldTraits)
    (override : Option FieldOverride) (old : Option Json) (members : Properties) :
    returned env (.collection kind (.object fields) traits) override old (.obj members) =
      .obj (returnedMembers env fields (innerOverrides override) (Json.object? old) members) := by
  simp [returned, returnedMembers, providerValue, providerHeld, canonicalValue, FieldSchema.element?]

theorem returned_objects (kind : CollectionKind) (fields : ObjectSchema) (traits : FieldTraits)
    (override : Option FieldOverride) (old : Option Json) (items : List Json) :
    returned env (.collection kind (.object fields) traits) override old (.arr items) =
      .arr (items.map (fun item =>
        match item with
        | .obj members => .obj (returnedMembers env fields (innerOverrides override) none members)
        | other => other)) := by
  simp only [returned, providerValue, providerHeld, canonicalValue, FieldSchema.element?, coerceNumber_arr,
    canonicalItems_eq_map, List.map_map]
  congr 1
  apply List.map_congr_left
  intro item _
  cases item <;> rfl

/-- A value that has the form of its field is kept, unless a map of objects is translated. -/
theorem FieldSchema.keptIn_returned {f : FieldSchema} {override : Option FieldOverride}
    (hkeys : f.DistinctKeys) (hnames : f.DistinctNames override) (hmaps : f.NoObjectMaps) {value : Json}
    (hvalue : f.Admits value)
    (old : Option Json) : value.KeptIn (returned env f override old value) := by
  induction f generalizing override value old with
  | scalar kind traits =>
    rw [returned_scalar]
    exact Json.keptIn_coerceNumber _ value
  | field kind f traits =>
    cases hvalue with
    | items =>
      rw [returned_items]
      exact ⟨_, rfl, Json.itemsKeptIn_map (fun item _ => Json.keptIn_coerceNumber f.kind item)⟩
    | entries =>
      rw [returned_entries]
      refine ⟨_, rfl, Json.membersKeptIn_iff.mpr ?_⟩
      intro key v hv
      exact ⟨coerceNumber f.kind v, List.mem_map.mpr ⟨(key, v), hv, rfl⟩, Json.keptIn_coerceNumber f.kind v⟩
  | object kind fields traits ih =>
    cases hkeys with | object keys innerKeys =>
    cases hnames with | object names innerNames =>
    cases hmaps with | object notMap innerMaps =>
    cases hvalue with
    | items _ hitems =>
      rw [returned_objects]
      refine ⟨_, rfl, Json.itemsKeptIn_map ?_⟩
      intro item hitem
      cases hitems item hitem with | object hraw hinner =>
      refine ⟨_, rfl, membersKeptIn_returnedMembers keys names hraw ?_ none⟩
      intro key f v hf hactive hv old
      exact ih key f hf (innerKeys key f hf) (innerNames key f hf hactive) (innerMaps key f hf hactive)
        (hinner key f v hf hv) old
    | entries => exact absurd rfl notMap

theorem not_keptIn_of_notMem {members others : Properties} {key : String} {v : Json} (hv : (key, v) ∈ members)
    (hkey : key ∉ others.map Prod.fst) : ¬ Json.KeptIn (.obj members) (.obj others) := by
  rintro ⟨_, heq, hkept⟩
  cases heq
  obtain ⟨w, hw, _⟩ := Json.membersKeptIn_iff.mp hkept key v hv
  exact hkey (List.mem_map_of_mem hw)

theorem exists_lost_entry (fields : ObjectSchema) (traits : FieldTraits) (override : Option FieldOverride) :
    ∃ value, FieldSchema.Admits (.collection .map (.object fields) traits) value ∧
      ∀ env old, ¬ value.KeptIn (returned env (.collection .map (.object fields) traits)
        override old value) := by
  obtain ⟨key, -, hkey⟩ := ObjectSchema.exists_freshName fields
  refine ⟨.obj [(key, .obj [])], .entries ?_, ?_⟩
  · intro k v hv
    cases List.mem_singleton.mp hv
    exact .object ⟨.nil, by simp⟩ (by simp)
  · intro env old
    rw [returned_object]
    apply not_keptIn_of_notMem List.mem_cons_self
    intro hmem
    exact hkey ((keys_providerMembers_sublist _ _).mem hmem)

/-- The state of an object that has a value for one field only. -/
theorem rawFor_singleton {key : String} {f : FieldSchema} (hf : (key, f) ∈ fields)
    (hactive : f.isRemoved = false) (v : Json) : Properties.RawFor fields [(key, v)] where
  keys := by simp
  active := by
    intro k hk
    cases List.mem_singleton.mp hk
    exact ⟨f, hf, hactive⟩

theorem admits_singleton (hkeys : (fields.map Prod.fst).Nodup) {key : String} {f : FieldSchema}
    (hf : (key, f) ∈ fields) {v : Json} (hv : f.Admits v) :
    ∀ k g w, (k, g) ∈ fields → (k, w) ∈ [(key, v)] → g.Admits w := by
  intro k g w hg hw
  cases List.mem_singleton.mp hw
  exact Json.eq_of_mem_of_mem hkeys hf hg ▸ hv

theorem not_membersKeptIn_singleton (hkeys : (fields.map Prod.fst).Nodup)
    (hnames : fields.NamesInjective overrides) {key : String} {f : FieldSchema} (hf : (key, f) ∈ fields)
    (hactive : f.isRemoved = false) {v : Json}
    (hlost : ∀ old, ¬ v.KeptIn (returned env f (overrides key) old v)) (olds : Option Properties) :
    ¬ Json.MembersKeptIn [(key, v)] (returnedMembers env fields overrides olds [(key, v)]) := by
  rw [Json.membersKeptIn_iff]
  intro h
  obtain ⟨w, hw, hkept⟩ := h key v List.mem_cons_self
  rw [mem_returnedMembers hkeys hnames (rawFor_singleton hf hactive v) hf List.mem_cons_self] at hw
  exact hlost _ (hw ▸ hkept)

theorem FieldSchema.exists_lost {f : FieldSchema} {override : Option FieldOverride} (hkeys : f.DistinctKeys)
    (hnames : f.DistinctNames override) (hmaps : ¬ f.NoObjectMaps) :
    ∃ value, f.Admits value ∧ ∀ env old, ¬ value.KeptIn (returned env f override old value) := by
  induction f generalizing override with
  | scalar => exact absurd .scalar hmaps
  | field => exact absurd .field hmaps
  | object kind fields traits ih =>
    cases hkeys with | object keys innerKeys =>
    cases hnames with | object names innerNames =>
    by_cases hkind : kind = .map
    · subst hkind
      exact exists_lost_entry fields traits override
    · have hfield : ∃ key f, (key, f) ∈ fields ∧ f.isRemoved = false ∧ ¬ f.NoObjectMaps := by
        by_contra hnone
        apply hmaps
        refine .object hkind ?_
        intro key f hf hactive
        by_contra hf'
        exact hnone ⟨key, f, hf, hactive, hf'⟩
      obtain ⟨key, f, hf, hactive, hf'⟩ := hfield
      obtain ⟨v, hv, hlost⟩ := ih key f hf (innerKeys key f hf) (innerNames key f hf hactive) hf'
      refine ⟨.arr [.obj [(key, v)]], .items hkind ?_, ?_⟩
      · intro item hitem
        cases List.mem_singleton.mp hitem
        exact .object (rawFor_singleton hf hactive v) (admits_singleton keys hf hv)
      · intro env old
        rw [returned_objects]
        rintro ⟨_, heq, hkept⟩
        cases heq
        obtain ⟨_, _, heq, ⟨_, hobj, hkept⟩, _⟩ := hkept
        cases heq
        cases hobj
        exact not_membersKeptIn_singleton keys names hf hactive (hlost env) none hkept

/-- Translating a state to canonical names and back keeps all of it, for every state that has the
form of the schema, exactly if no map of objects is translated. -/
theorem state_kept_iff (schema : ObjectSchema) (overrides : FieldOverrides) (hkeys : schema.DistinctKeys)
    (hnames : schema.DistinctNames (fun key => overrides.lookup key)) :
    (∀ raw, schema.Admits raw → ∀ olds env, Json.MembersKeptIn raw
      (providerInputs (canonicalOutputs raw schema overrides) olds schema overrides env)) ↔
    schema.NoObjectMaps := by
  constructor
  · intro h key f hf hactive
    by_contra hmaps
    obtain ⟨v, hv, hlost⟩ :=
      FieldSchema.exists_lost (hkeys.inner key f hf) (hnames.inner key f hf hactive) hmaps
    have hraw : schema.Admits [(key, v)] :=
      ⟨rawFor_singleton hf hactive v, admits_singleton hkeys.keys hf hv⟩
    have hkept := h [(key, v)] hraw none (fun _ => none)
    exact not_membersKeptIn_singleton hkeys.keys hnames.names hf hactive (hlost _) none hkept
  · intro hmaps raw hraw olds env
    refine membersKeptIn_returnedMembers hkeys.keys hnames.names hraw.rawFor ?_ olds
    intro key f v hf hactive hv old
    exact FieldSchema.keptIn_returned (hkeys.inner key f hf) (hnames.inner key f hf hactive)
      (hmaps key f hf hactive) (hraw.inner key f v hf hv) old

theorem ruleSchema_noObjectMaps : ruleSchema.NoObjectMaps := by
  intro key f h _
  obtain ⟨-, rfl⟩ | ⟨-, rfl⟩ := mem_ruleSchema h
  · exact .scalar
  · refine .object (by decide) ?_
    intro key f h _
    obtain ⟨-, rfl⟩ | ⟨-, rfl⟩ := mem_ruleFields h <;> exact .scalar

theorem ruleSchema_admits_ruleInputs : ruleSchema.Admits ruleInputs where
  rawFor := {
    keys := by decide
    active := by
      intro key hkey
      have h : key = "region" ∨ key = "rule" := by simpa [ruleInputs] using hkey
      obtain rfl | rfl := h
      · exact ⟨_, List.mem_cons_self, rfl⟩
      · exact ⟨_, List.mem_cons_of_mem _ List.mem_cons_self, rfl⟩ }
  inner := by
    intro key f v hf hv
    obtain ⟨-, rfl⟩ | ⟨rfl, rfl⟩ := mem_ruleSchema hf
    · exact .scalar
    · have h : v = .arr [.obj [("target_arn", .str "arn"), ("weight", .num (.int 3))]] := by
        simpa [ruleInputs] using hv
      rw [h]
      refine .items (by decide) ?_
      intro item hitem
      cases List.mem_singleton.mp hitem
      refine .object ⟨by decide, ?_⟩ ?_
      · intro key hkey
        have h : key = "target_arn" ∨ key = "weight" := by simpa using hkey
        obtain rfl | rfl := h
        · exact ⟨_, List.mem_cons_self, rfl⟩
        · exact ⟨_, List.mem_cons_of_mem _ List.mem_cons_self, rfl⟩
      · intro key f v hf _
        obtain ⟨-, rfl⟩ | ⟨-, rfl⟩ := mem_ruleFields hf <;> exact .scalar

/-- The sample schema has no maps, so that its state is kept. -/
theorem ruleInputs_kept :
    ruleSchema.DistinctKeys ∧ ruleSchema.DistinctNames (fun key => ruleOverrides.lookup key) ∧
      Json.MembersKeptIn ruleInputs
        (providerInputs (canonicalOutputs ruleInputs ruleSchema ruleOverrides) none ruleSchema ruleOverrides
          (fun _ => none)) := by
  have hkept := (state_kept_iff ruleSchema ruleOverrides ruleSchema_distinctKeys ruleSchema_distinctNames).mpr
    ruleSchema_noObjectMaps
  exact ⟨ruleSchema_distinctKeys, ruleSchema_distinctNames,
    hkept ruleInputs ruleSchema_admits_ruleInputs none (fun _ => none)⟩

def labelSchema : ObjectSchema := [("labels", .collection .map (.object [("rank", .scalar .int {})]) {})]

def labelState : Properties := [("labels", .obj [("red", .obj [("rank", .num (.int 1))])])]

theorem mem_labelSchema {key : String} {f : FieldSchema} (h : (key, f) ∈ labelSchema) :
    key = "labels" ∧ f = .collection .map (.object [("rank", .scalar .int {})]) {} := by
  simpa [labelSchema] using h

theorem labelSchema_admits_labelState : labelSchema.Admits labelState where
  rawFor := rawFor_singleton List.mem_cons_self rfl _
  inner := by
    intro key f v hf hv
    obtain ⟨-, rfl⟩ := mem_labelSchema hf
    cases List.mem_singleton.mp hv
    refine .entries ?_
    intro key v hv
    cases List.mem_singleton.mp hv
    refine .object (rawFor_singleton List.mem_cons_self rfl _) ?_
    intro key f v hf _
    cases List.mem_singleton.mp hf
    exact .scalar

theorem labelSchema_distinctNames : labelSchema.DistinctNames (fun _ => none) where
  names := .of_nodup (by decide)
  inner := by
    intro key f h _
    obtain ⟨-, rfl⟩ := mem_labelSchema h
    refine .object (.of_nodup (by decide)) ?_
    intro key f h _
    cases List.mem_singleton.mp h
    exact .scalar

/-- The entry of the map is lost, although the state has the form of the schema and names are injective. -/
theorem labelState_lost :
    labelSchema.Admits labelState ∧ labelSchema.DistinctNames (fun key => ([] : FieldOverrides).lookup key) ∧
      ¬ Json.MembersKeptIn labelState
        (providerInputs (canonicalOutputs labelState labelSchema []) none labelSchema []
          (fun _ => none)) := by
  refine ⟨labelSchema_admits_labelState, labelSchema_distinctNames, ?_⟩
  have hinputs : providerInputs (canonicalOutputs labelState labelSchema []) none labelSchema []
      (fun _ => none) =
      [("labels", .obj [])] := by rfl
  rw [hinputs, Json.membersKeptIn_iff]
  intro hkept
  obtain ⟨w, hw, hlost⟩ := hkept _ _ List.mem_cons_self
  cases List.mem_singleton.mp hw
  exact not_keptIn_of_notMem List.mem_cons_self (by simp) hlost

end ProviderSdk
