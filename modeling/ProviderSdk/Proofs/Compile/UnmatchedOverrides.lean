import ProviderSdk.Proofs.Compile.Accounting
import ProviderSdk.Proofs.Compile.OverrideEntries

/-!
# Unmatched overrides

The warnings about fields that overrides mention and the schema does not have. Checking goes from
the override of a field to what is said about the object that is its element, and there it tells
exactly which fields are missing. Pairing goes further: in a collection of collections it finds an
object too. So the warnings are exact for all overrides if every collection holds objects; otherwise
some are missing or wrong.
-/

namespace ProviderSdk

def pathFrom : Option String → List String → String
  | owner, [] => owner.getD ""
  | owner, key :: rest => pathFrom (some (pathBelow owner key)) rest

def overrideWarning (part : ProviderPart) (owner : Option String) (path : List String) : PairingWarning :=
  .fieldNotInSchema part (pathFrom owner path)

/-- Warnings are exact for a view of overrides: there is one for every entry whose field the schema
does not have, none for an entry whose field it has, and no other. -/
def OverrideView.Exact (view : OverrideView) (part : ProviderPart) (owner : Option String)
    (fields : ObjectSchema) (overrides : OverrideLookup) (warnings : List PairingWarning) : Prop :=
  ∃ paths : List (List String), warnings = paths.map (overrideWarning part owner) ∧ paths.Nodup ∧
    (∀ path found, view.Entry fields overrides path found → (path ∈ paths ↔ found = none)) ∧
    ∀ path ∈ paths, view.Entry fields overrides path none

variable {part : ProviderPart}

theorem lookup_fieldChecks (fields : ObjectSchema) (key : String) :
    (fieldChecks part fields).lookup key = (fields.lookup key).map (nestedCheck part) := by
  induction fields with
  | nil => rfl
  | cons m rest ih =>
    obtain ⟨k, f⟩ := m
    rw [fieldChecks, Json.lookup_cons_ite, Json.lookup_cons_ite, ih]
    split <;> rfl

theorem nestedCheck_eq (f : FieldSchema) (path : String) (o : FieldOverride) :
    nestedCheck part f path o = checkedOverrides part (fieldChecks part f.elementFields) (some path)
      o.nestedFields := by
  cases f with
  | scalar kind traits => rfl
  | collection kind element traits => cases element <;> rfl

/-- An override of a key has an entry without a field at a path: the key has no field, or an entry
further inside has none. -/
def OverrideView.Unmatched (view : OverrideView) (fields : ObjectSchema) (key : String) (o : FieldOverride)
    (path : List String) : Prop :=
  (fields.lookup key = none ∧ path = [key]) ∨
    ∃ f rest, fields.lookup key = some f ∧ path = key :: rest ∧
      view.Entry (view.fields f) (view.overrides f o) rest none

variable {view : OverrideView} {fields : ObjectSchema}

theorem OverrideView.Unmatched.head {key : String} {o : FieldOverride} {path : List String}
    (h : view.Unmatched fields key o path) : path.head? = some key := by
  rcases h with ⟨-, rfl⟩ | ⟨_, _, -, rfl, -⟩ <;> rfl

theorem entry_none_iff {overrides : OverrideLookup} {path : List String} :
    view.Entry fields overrides path none ↔
    ∃ key o, overrides key = some o ∧ view.Unmatched fields key o path := by
  constructor
  · have hcases {found : Option FieldSchema} (h : view.Entry fields overrides path found)
        (hnone : found = none) :
        ∃ key o, overrides key = some o ∧ view.Unmatched fields key o path := by
      cases h with
      | here said => exact ⟨_, _, said, .inl ⟨hnone, rfl⟩⟩
      | inside said field inner =>
        subst hnone
        exact ⟨_, _, said, .inr ⟨_, _, field, rfl, inner⟩⟩
    exact fun h => hcases h rfl
  · rintro ⟨key, o, said, ⟨hnone, rfl⟩ | ⟨f, rest, field, rfl, inner⟩⟩
    · exact hnone ▸ .here said
    · exact .inside said field inner

/-- The warnings about some overrides are those about paths, each once, at which something holds. -/
def WarnsAt (part : ProviderPart) (owner : Option String) (warnings : List PairingWarning)
    (holds : List String → Prop) : Prop :=
  ∃ paths : List (List String), warnings = paths.map (overrideWarning part owner) ∧ paths.Nodup ∧
    ∀ path, path ∈ paths ↔ holds path

/-- The warnings about one override are about its entries without a field, if this is so one level
further inside. -/
theorem checkedOverride_warnsAt {key : String} {o : FieldOverride} (owner : Option String)
    (hinner : ∀ f, fields.lookup key = some f → ∀ path, WarnsAt part (some path) (nestedCheck part f path o)
      (fun rest => view.Entry (view.fields f) (view.overrides f o) rest none)) :
    WarnsAt part owner (checkedOverrides part (fieldChecks part fields) owner [(key, o)])
      (view.Unmatched fields key o) := by
  simp only [checkedOverrides, List.flatMap_cons, List.flatMap_nil, List.append_nil, lookup_fieldChecks]
  cases hf : fields.lookup key with
  | none => exact ⟨[[key]], rfl, List.nodup_singleton _, by simp [OverrideView.Unmatched, hf]⟩
  | some f =>
    obtain ⟨paths, hwarnings, hnodup, hmem⟩ := hinner f hf (pathBelow owner key)
    refine ⟨paths.map (fun rest => key :: rest), ?_,
      hnodup.map (fun _ _ heq => (List.cons.inj heq).2), fun path => ?_⟩
    · rw [List.map_map]
      exact hwarnings
    · simp only [List.mem_map, hmem, OverrideView.Unmatched, hf, Option.some.injEq, reduceCtorEq,
        false_and, false_or]
      constructor
      · rintro ⟨rest, hrest, rfl⟩
        exact ⟨f, rest, rfl, rfl, hrest⟩
      · rintro ⟨_, rest, rfl, rfl, hrest⟩
        exact ⟨rest, hrest, rfl⟩

/-- The warnings about overrides of an object are about their entries without a field, if this is so
one level further inside. -/
theorem checkedOverrides_warnsAt {overrides : FieldOverrides} (owner : Option String)
    (hkeys : (overrides.map Prod.fst).Nodup)
    (hinner : ∀ key o, (key, o) ∈ overrides → ∀ f, fields.lookup key = some f → ∀ path,
      WarnsAt part (some path) (nestedCheck part f path o)
        (fun rest => view.Entry (view.fields f) (view.overrides f o) rest none)) :
    WarnsAt part owner (checkedOverrides part (fieldChecks part fields) owner overrides)
      (fun path => view.Entry fields (fun key => overrides.lookup key) path none) := by
  have hpaths : WarnsAt part owner (checkedOverrides part (fieldChecks part fields) owner overrides)
      (fun path => ∃ key o, (key, o) ∈ overrides ∧ view.Unmatched fields key o path) := by
    induction overrides with
    | nil => exact ⟨[], rfl, .nil, by simp⟩
    | cons m others ih =>
      obtain ⟨key, o⟩ := m
      obtain ⟨hkey, hothers⟩ := List.nodup_cons.mp hkeys
      obtain ⟨first, hfirst, hfirstNodup, hfirstMem⟩ :=
        checkedOverride_warnsAt owner (hinner key o List.mem_cons_self)
      obtain ⟨rest, hrest, hrestNodup, hrestMem⟩ :=
        ih hothers (fun key o ho => hinner key o (List.mem_cons_of_mem _ ho))
      refine ⟨first ++ rest, ?_, ?_, fun path => ?_⟩
      · rw [List.map_append, ← hfirst, ← hrest]
        simp [checkedOverrides]
      · refine List.Nodup.append hfirstNodup hrestNodup (fun path hpath hpath' => ?_)
        obtain ⟨key', o', ho', hentry⟩ := (hrestMem path).mp hpath'
        obtain rfl := Option.some.inj (((hfirstMem path).mp hpath).head.symm.trans hentry.head)
        exact hkey (List.mem_map.mpr ⟨_, ho', rfl⟩)
      · rw [List.mem_append, hfirstMem, hrestMem]
        constructor
        · rintro (h | ⟨key', o', ho', h⟩)
          · exact ⟨key, o, List.mem_cons_self, h⟩
          · exact ⟨key', o', List.mem_cons_of_mem _ ho', h⟩
        · rintro ⟨key', o', ho', h⟩
          rcases List.mem_cons.mp ho' with heq | ho'
          · cases heq
            exact .inl h
          · exact .inr ⟨key', o', ho', h⟩
  obtain ⟨paths, hwarnings, hnodup, hmem⟩ := hpaths
  refine ⟨paths, hwarnings, hnodup, fun path => (hmem path).trans (Iff.trans ?_ entry_none_iff.symm)⟩
  refine exists_congr (fun key => exists_congr (fun o => and_congr_left' ?_))
  exact ⟨Json.lookup_of_mem hkeys, Json.mem_of_lookup⟩

/-- What is checked below a field are the entries of its override without a field. -/
theorem nestedCheck_warnsAt (f : FieldSchema) (path : String) {o : FieldOverride} (ho : o.DistinctKeys) :
    WarnsAt part (some path) (nestedCheck part f path o)
      (fun rest => OverrideView.direct.Entry f.elementFields (fun key => o.field? key) rest none) := by
  -- By induction on the field: only an object that is its element has fields to go on with.
  induction f generalizing path o with
  | scalar kind traits =>
    rw [nestedCheck_eq, ← funext ho.lookup_nestedFields]
    exact checkedOverrides_warnsAt _ ho.nestedFields.keys (fun key inner _ f hf => by cases hf)
  | field kind g traits ih =>
    rw [nestedCheck_eq, ← funext ho.lookup_nestedFields]
    exact checkedOverrides_warnsAt _ ho.nestedFields.keys (fun key inner _ f hf => by cases hf)
  | object kind fields traits ih =>
    rw [nestedCheck_eq, ← funext ho.lookup_nestedFields]
    exact checkedOverrides_warnsAt _ ho.nestedFields.keys (fun key inner hinner f hf path =>
      ih key f (Json.mem_of_lookup hf) path (ho.nestedFields.inner key inner hinner))

/-- The warnings about the overrides of an object are exact if what is said about a field is looked
for in the object that is its element. -/
theorem unmatchedOverrides_exact_direct {overrides : FieldOverrides} (hkeys : overrides.DistinctKeys)
    (owner : Option String) (fields : ObjectSchema) :
    OverrideView.direct.Exact part owner fields (fun key => overrides.lookup key)
      (unmatchedOverrides part owner fields overrides) := by
  have hwarns : WarnsAt part owner (checkedOverrides part (fieldChecks part fields) owner overrides)
      (fun path => OverrideView.direct.Entry fields (fun key => overrides.lookup key) path none) :=
    checkedOverrides_warnsAt owner hkeys.keys (fun key o ho f _ path =>
      nestedCheck_warnsAt f path (hkeys.inner key o ho))
  obtain ⟨paths, hwarnings, hnodup, hmem⟩ := hwarns
  refine ⟨paths, hwarnings, hnodup, fun path found hentry => ?_, fun path => (hmem path).mp⟩
  rw [hmem]
  constructor
  · exact fun hnone => hentry.unique hnone
  · rintro rfl
    exact hentry

theorem FieldSchema.HoldsObjects.agree {f : FieldSchema} (h : f.HoldsObjects) :
    f.heldFields = f.elementFields ∧ f.heldOverrides = fun o key => o.field? key := by
  cases h <;> exact ⟨rfl, rfl⟩

theorem heldOverrides_of_element_none {e : FieldOverride} (h : e.element = none) (f : FieldSchema)
    (key : String) :
    f.heldOverrides e key = e.fields.lookup key := by
  rw [← FieldOverride.field?_of_element_none h]
  cases f with
  | scalar kind traits => rfl
  | collection kind element traits =>
    cases element with
    | object fields => rfl
    | field g =>
      rw [FieldSchema.heldOverrides_field, h]
      rfl

theorem FieldSchema.HoldsDirectly.agree {f : FieldSchema} (h : f.HoldsDirectly) {o : FieldOverride}
    (ho : o.Flat) :
    f.heldFields = f.elementFields ∧ f.heldOverrides o = fun key => o.field? key := by
  cases h with
  | scalar => exact ⟨rfl, rfl⟩
  | object inner => exact ⟨rfl, rfl⟩
  | @field kind g traits nothing =>
    refine ⟨nothing, funext (fun key => ?_)⟩
    obtain ⟨last, -, -⟩ := ho
    rw [FieldSchema.heldOverrides_field, FieldOverride.field?]
    cases helement : o.element with
    | none => rfl
    | some e =>
      rw [Option.bind_some, Option.bind_some, heldOverrides_of_element_none (last e helement)]
      cases e.fields.lookup key <;> rfl

theorem OverrideView.Exact.congr {view view' : OverrideView} {owner : Option String} {fields : ObjectSchema}
    {overrides : OverrideLookup} {warnings : List PairingWarning}
    (hiff : ∀ path found, view'.Entry fields overrides path found ↔ view.Entry fields overrides path found)
    (h : view.Exact part owner fields overrides warnings) :
    view'.Exact part owner fields overrides warnings := by
  obtain ⟨paths, hwarnings, hnodup, hentries, honly⟩ := h
  exact ⟨paths, hwarnings, hnodup, fun path found hentry => hentries path found ((hiff path found).mp hentry),
    fun path hpath => (hiff path none).mpr (honly path hpath)⟩

theorem unmatchedOverrides_exact_of_holdsObjects {overrides : FieldOverrides} (hkeys : overrides.DistinctKeys)
    (owner : Option String) {fields : ObjectSchema} (hfields : fields.HoldsObjects) :
    OverrideView.ultimate.Exact part owner fields (fun key => overrides.lookup key)
      (unmatchedOverrides part owner fields overrides) := by
  refine (unmatchedOverrides_exact_direct hkeys owner fields).congr (fun path found => ?_)
  refine OverrideView.entry_iff_of_agree (fun f _ => f.HoldsObjects) (fun f o hf => ?_)
    (fun key f o hf _ => hfields key f (Json.mem_of_lookup hf))
  refine ⟨hf.agree.1, congrFun hf.agree.2 o, fun key g inner hg _ => ?_⟩
  cases hf with
  | scalar => cases hg
  | object inner => exact inner key g (Json.mem_of_lookup hg)

/-- The warnings are exact for overrides that say nothing about elements of elements, if no object
stands in a collection of collections. -/
theorem unmatchedOverrides_exact_of_holdsDirectly {overrides : FieldOverrides}
    (hkeys : overrides.DistinctKeys) (hflat : overrides.Flat) (owner : Option String) {fields : ObjectSchema}
    (hfields : fields.HoldsDirectly) :
    OverrideView.ultimate.Exact part owner fields (fun key => overrides.lookup key)
      (unmatchedOverrides part owner fields overrides) := by
  refine (unmatchedOverrides_exact_direct hkeys owner fields).congr (fun path found => ?_)
  refine OverrideView.entry_iff_of_agree (fun f o => f.HoldsDirectly ∧ o.Flat) ?_
    (fun key f o hf ho => ⟨hfields key f (Json.mem_of_lookup hf), hflat key o (Json.mem_of_lookup ho)⟩)
  rintro f o ⟨hf, ho⟩
  refine ⟨(hf.agree ho).1, (hf.agree ho).2, fun key g inner hg hinner => ⟨?_, ho.field? hinner⟩⟩
  cases hf with
  | scalar => cases hg
  | field nothing => cases hg
  | object inner => exact inner key g (Json.mem_of_lookup hg)

def FieldOverride.about (key : String) (inner : FieldOverride) : FieldOverride := { fields := [(key, inner)] }

def FieldOverride.ofElement (inner : FieldOverride) : FieldOverride := { element := some inner }

namespace FieldOverride

variable {inner : FieldOverride} (key : String)

theorem DistinctKeys.about (h : inner.DistinctKeys) : (FieldOverride.about key inner).DistinctKeys :=
  .intro (List.nodup_singleton key) (fun _ _ hmem => by cases List.mem_singleton.mp hmem; exact h)
    (fun _ he => by cases he)

theorem DistinctKeys.ofElement (h : inner.DistinctKeys) : (FieldOverride.ofElement inner).DistinctKeys :=
  .intro .nil (fun _ _ hmem => by cases hmem) (fun _ he => by cases he; exact h)

theorem distinctKeys_default : FieldOverride.DistinctKeys {} :=
  .intro .nil (fun _ _ hmem => by cases hmem) (fun _ he => by cases he)

theorem Flat.about (h : inner.Flat) : (FieldOverride.about key inner).Flat :=
  .intro (fun _ he => by cases he) (fun _ _ hmem => by cases List.mem_singleton.mp hmem; exact h)
    (fun _ he => by cases he)

theorem flat_default : FieldOverride.Flat {} :=
  .intro (fun _ he => by cases he) (fun _ _ hmem => by cases hmem) (fun _ he => by cases he)

theorem field?_about : (FieldOverride.about key inner).field? key = some inner := by
  simp [FieldOverride.field?, FieldOverride.about]

end FieldOverride

theorem FieldOverrides.DistinctKeys.singleton {o : FieldOverride} (h : o.DistinctKeys) (key : String) :
    FieldOverrides.DistinctKeys [(key, o)] where
  keys := List.nodup_singleton key
  inner _ _ hmem := by
    cases List.mem_singleton.mp hmem
    exact h

theorem checkedOverrides_singleton {key : String} {f : FieldSchema} (hf : fields.lookup key = some f)
    (owner : Option String) (o : FieldOverride) :
    checkedOverrides part (fieldChecks part fields) owner [(key, o)] =
      nestedCheck part f (pathBelow owner key) o := by
  simp [checkedOverrides, lookup_fieldChecks, hf]

/-- What an override says about a field of what a field holds is said about it, if nothing further
inside is. -/
theorem exists_heldOverrides (f : FieldSchema) {o inner : FieldOverride} {key : String}
    (h : o.field? key = some inner) :
    ∃ said, f.heldOverrides o key = some said := by
  cases f with
  | scalar kind traits => exact ⟨inner, h⟩
  | collection kind element traits =>
    cases element with
    | object fields => exact ⟨inner, h⟩
    | field g =>
      rw [FieldSchema.heldOverrides_field, h]
      cases o.element.bind (fun e => g.heldOverrides e key) with
      | none => exact ⟨inner, rfl⟩
      | some said => exact ⟨said, rfl⟩

/-- If a collection holds something else than objects, an entry without a field can be missed. -/
theorem FieldSchema.exists_missed (part : ProviderPart) {f : FieldSchema} (hkeys : f.DistinctKeys)
    (h : ¬ f.HoldsObjects) : ∃ o : FieldOverride, o.DistinctKeys ∧ (∀ path, nestedCheck part f path o = []) ∧
      ∃ path, OverrideView.ultimate.Entry f.heldFields (f.heldOverrides o) path none := by
  induction f with
  | scalar kind traits => exact absurd .scalar h
  | field kind g traits ih =>
    obtain ⟨name, -, hfresh⟩ := ObjectSchema.exists_freshName g.heldFields
    -- What the override of the element of the element says is not looked at.
    refine ⟨.ofElement (.ofElement (.about name {})),
      (FieldOverride.distinctKeys_default.about name).ofElement.ofElement, fun path => rfl, [name], ?_⟩
    have hfield : (FieldOverride.ofElement (.about name {})).field? name = some {} := by
      simp [FieldOverride.field?, FieldOverride.ofElement, FieldOverride.about]
    obtain ⟨o, ho⟩ := exists_heldOverrides g hfield
    have hsaid : (FieldSchema.collection kind (.field g) traits).heldOverrides
        (.ofElement (.ofElement (.about name {}))) name = some o := by
      rw [FieldSchema.heldOverrides_field]
      change (g.heldOverrides (.ofElement (.about name {})) name).or _ = _
      rw [ho]
      rfl
    have hnone : g.heldFields.lookup name = none := Json.lookup_eq_none_iff_notMem.mpr hfresh
    exact hnone ▸ OverrideView.Entry.here hsaid
  | object kind fields traits ih =>
    obtain ⟨key, f, hf, hnot⟩ : ∃ key f, (key, f) ∈ fields ∧ ¬ f.HoldsObjects := by
      by_contra hall
      push Not at hall
      exact h (.object hall)
    cases hkeys with | object keys inner =>
    have hlookup : fields.lookup key = some f := Json.lookup_of_mem keys hf
    obtain ⟨o, hdistinct, hchecked, path, hentry⟩ := ih key f hf (inner key f hf) hnot
    refine ⟨.about key o, hdistinct.about key, fun path => ?_, key :: path, ?_⟩
    · exact (checkedOverrides_singleton hlookup _ o).trans (hchecked _)
    · exact .inside (FieldOverride.field?_about key) hlookup hentry

/-- If an object stands in a collection of collections, a warning about an entry can be wrong: the
schema has the field. -/
theorem FieldSchema.exists_falseAlarm (part : ProviderPart) {f : FieldSchema} (hkeys : f.DistinctKeys)
    (h : ¬ f.HoldsDirectly) : ∃ o : FieldOverride, o.DistinctKeys ∧ o.Flat ∧ ∃ path g,
      OverrideView.ultimate.Entry f.heldFields (f.heldOverrides o) path (some g) ∧
        ∀ owner, nestedCheck part f owner o = [overrideWarning part (some owner) path] := by
  induction f with
  | scalar kind traits => exact absurd .scalar h
  | field kind g traits ih =>
    obtain ⟨⟨key, held⟩, rest, hheld⟩ : ∃ m rest, g.heldFields = m :: rest :=
      List.exists_cons_of_ne_nil (fun hnil => h (.field hnil))
    refine ⟨.about key {}, FieldOverride.distinctKeys_default.about key,
      FieldOverride.flat_default.about key, [key], held, ?_, fun owner => rfl⟩
    have hlookup : g.heldFields.lookup key = some held := by
      rw [hheld, Json.lookup_cons_ite, if_pos rfl]
    have hsaid : (FieldSchema.collection kind (.field g) traits).heldOverrides (.about key {})
        key = some {} := by
      rw [FieldSchema.heldOverrides_field, FieldOverride.field?_about]
      rfl
    exact hlookup ▸ OverrideView.Entry.here hsaid
  | object kind fields traits ih =>
    obtain ⟨key, f, hf, hnot⟩ : ∃ key f, (key, f) ∈ fields ∧ ¬ f.HoldsDirectly := by
      by_contra hall
      push Not at hall
      exact h (.object hall)
    cases hkeys with | object keys inner =>
    have hlookup : fields.lookup key = some f := Json.lookup_of_mem keys hf
    obtain ⟨o, hdistinct, hflat, path, g, hentry, hchecked⟩ := ih key f hf (inner key f hf) hnot
    refine ⟨.about key o, hdistinct.about key, hflat.about key, key :: path, g, ?_, fun owner => ?_⟩
    · exact .inside (FieldOverride.field?_about key) hlookup hentry
    · exact (checkedOverrides_singleton hlookup _ o).trans (hchecked _)

/-- An object, with what is said about it, of which a document says something: the configuration, or
what a resource or data source consists of. -/
structure OverriddenObject where
  part : ProviderPart
  owner : Option String
  fields : ObjectSchema
  overrides : FieldOverrides

namespace OverriddenObject

def warnings (x : OverriddenObject) : List PairingWarning :=
  unmatchedOverrides x.part x.owner x.fields x.overrides

/-- What is noticed about the overrides of an object is exact for a view of them. -/
def Exact (view : OverrideView) (x : OverriddenObject) : Prop :=
  view.Exact x.part x.owner x.fields (fun key => x.overrides.lookup key) x.warnings

/-- There is an entry about a field that the schema has, and the one warning says that it does not have it. -/
def Misjudged (x : OverriddenObject) : Prop :=
  ∃ path f, OverrideView.ultimate.Entry x.fields (fun key => x.overrides.lookup key) path (some f) ∧
    x.warnings = [overrideWarning x.part x.owner path]

/-- There is an entry about a field that the schema does not have, and no warning at all. -/
def Unnoticed (x : OverriddenObject) : Prop :=
  (∃ path, OverrideView.ultimate.Entry x.fields (fun key => x.overrides.lookup key) path none) ∧
    x.warnings = []

/-- How far the warnings about overrides go: they are exact for the objects that are elements, and
so for all overrides if every collection holds objects; for overrides that say nothing about
elements of elements they are exact if no object stands in a collection of collections; and if it is
not so, there are overrides of the same schema, of the latter kind too, for which they are not. -/
structure Judged (x : OverriddenObject) : Prop where
  direct : x.Exact .direct
  holdsObjects : x.fields.HoldsObjects → x.Exact .ultimate
  holdsDirectly : x.fields.HoldsDirectly → x.overrides.Flat → x.Exact .ultimate
  unnoticed : x.fields.DistinctKeys → ¬ x.fields.HoldsObjects →
    ∃ overrides : FieldOverrides, overrides.DistinctKeys ∧ Unnoticed { x with overrides := overrides }
  misjudged : x.fields.DistinctKeys → ¬ x.fields.HoldsDirectly →
    ∃ overrides : FieldOverrides, overrides.DistinctKeys ∧ overrides.Flat ∧
      Misjudged { x with overrides := overrides }

theorem judged {x : OverriddenObject} (hkeys : x.overrides.DistinctKeys) : x.Judged where
  direct := unmatchedOverrides_exact_direct hkeys x.owner x.fields
  holdsObjects := unmatchedOverrides_exact_of_holdsObjects hkeys x.owner
  holdsDirectly hdirectly hflat := unmatchedOverrides_exact_of_holdsDirectly hkeys hflat x.owner hdirectly
  unnoticed hfields hnot := by
    obtain ⟨key, f, hf, hnot⟩ : ∃ key f, (key, f) ∈ x.fields ∧ ¬ f.HoldsObjects := by
      by_contra hall
      push Not at hall
      exact hnot hall
    have hlookup : x.fields.lookup key = some f := Json.lookup_of_mem hfields.keys hf
    obtain ⟨o, hdistinct, hchecked, path, hentry⟩ :=
      FieldSchema.exists_missed x.part (hfields.inner key f hf) hnot
    refine ⟨[(key, o)], .singleton hdistinct key, ⟨key :: path, .inside (by simp) hlookup hentry⟩, ?_⟩
    exact (checkedOverrides_singleton hlookup _ o).trans (hchecked _)
  misjudged hfields hnot := by
    obtain ⟨key, f, hf, hnot⟩ : ∃ key f, (key, f) ∈ x.fields ∧ ¬ f.HoldsDirectly := by
      by_contra hall
      push Not at hall
      exact hnot hall
    have hlookup : x.fields.lookup key = some f := Json.lookup_of_mem hfields.keys hf
    obtain ⟨o, hdistinct, hflat, path, g, hentry, hchecked⟩ :=
      FieldSchema.exists_falseAlarm x.part (hfields.inner key f hf) hnot
    refine ⟨[(key, o)], .singleton hdistinct key, fun k inner hmem => ?_, key :: path, g,
      .inside (by simp) hlookup hentry, ?_⟩
    · cases List.mem_singleton.mp hmem
      exact hflat
    · exact (checkedOverrides_singleton hlookup _ o).trans (hchecked _)

end OverriddenObject

def PairingWarning.isAboutField : PairingWarning → Bool
  | .fieldNotInSchema _ _ => true
  | _ => false

def overriddenItems (part : ProviderPart) (schema : List (String × ObjectSchema))
    (overrides : List (String × ItemOverride)) : List OverriddenObject :=
  schema.filterMap (fun (rawName, fields) =>
    (overrides.lookup rawName).map (fun o => ⟨part, some rawName, fields, o.fields⟩))

/-- All objects of a document's schema about which the document says something. -/
def Document.overriddenObjects (d : Document) : List OverriddenObject :=
  ⟨.config, none, d.provider.config, d.config⟩ ::
    (overriddenItems .resource d.provider.resources d.resources ++
      overriddenItems .dataSource d.provider.dataSources d.dataSources)

/-- In all that a document says about fields no key occurs twice. -/
structure Document.OverridesDistinct (d : Document) : Prop where
  config : d.config.DistinctKeys
  resources : ∀ item ∈ d.resources, FieldOverrides.DistinctKeys item.2.fields
  dataSources : ∀ item ∈ d.dataSources, FieldOverrides.DistinctKeys item.2.fields

theorem filter_unmatchedOverrides (owner : Option String) (fields : ObjectSchema)
    (overrides : FieldOverrides) :
    (unmatchedOverrides part owner fields overrides).filter PairingWarning.isAboutField =
      unmatchedOverrides part owner fields overrides := by
  refine List.filter_eq_self.mpr (fun w hw => ?_)
  have hfield := unmatchedOverrides_isAboutField owner fields overrides w hw
  cases w with
  | fieldNotInSchema => rfl
  | _ => exact absurd hfield id

theorem filter_pairItems (schema : List (String × ObjectSchema)) (overrides : List (String × ItemOverride)) :
    (pairItems part schema overrides).2.filter PairingWarning.isAboutField =
      (overriddenItems part schema overrides).flatMap OverriddenObject.warnings := by
  induction schema with
  | nil => rfl
  | cons m rest ih =>
    obtain ⟨rawName, fields⟩ := m
    cases hlookup : overrides.lookup rawName with
    | none =>
      have hitems : overriddenItems part ((rawName, fields) :: rest) overrides =
          overriddenItems part rest overrides := by
        simp [overriddenItems, hlookup]
      rw [hitems, ← ih]
      simp [pairItems, hlookup, PairingWarning.isAboutField]
    | some o =>
      have hitems : overriddenItems part ((rawName, fields) :: rest) overrides =
          ⟨part, some rawName, fields, o.fields⟩ :: overriddenItems part rest overrides := by
        simp [overriddenItems, hlookup]
      have hwarnings : (pairItems part ((rawName, fields) :: rest) overrides).2 =
          unmatchedOverrides part (some rawName) fields o.fields ++ (pairItems part rest overrides).2 := by
        simp [pairItems, hlookup]
      rw [hitems, hwarnings, List.filter_append, filter_unmatchedOverrides, ih, List.flatMap_cons]
      rfl

theorem Document.filter_paired (d : Document) : d.paired.2.filter PairingWarning.isAboutField =
    d.overriddenObjects.flatMap OverriddenObject.warnings := by
  have hitems (schema : List (String × ObjectSchema)) (overrides : List (String × ItemOverride))
      (part : ProviderPart) :
      (unmatchedItems part schema overrides).filter PairingWarning.isAboutField = [] := by
    refine List.filter_eq_nil_iff.mpr (fun w hw => ?_)
    obtain ⟨_, _, rfl⟩ := List.mem_map.mp hw
    exact Bool.false_ne_true
  rw [Document.paired, Document.overriddenObjects]
  simp only [List.filter_append, filter_unmatchedOverrides, filter_pairItems, hitems, List.append_nil,
    List.flatMap_cons, List.flatMap_append, List.append_assoc]
  rfl

theorem Document.OverridesDistinct.judged {d : Document} (h : d.OverridesDistinct) :
    ∀ x ∈ d.overriddenObjects, x.Judged := by
  have hitems {part : ProviderPart} {schema : List (String × ObjectSchema)}
      {overrides : List (String × ItemOverride)}
      (hoverrides : ∀ item ∈ overrides, FieldOverrides.DistinctKeys item.2.fields) :
      ∀ x ∈ overriddenItems part schema overrides, x.Judged := by
    intro x hx
    obtain ⟨⟨rawName, fields⟩, -, hx⟩ := List.mem_filterMap.mp hx
    obtain ⟨o, ho, rfl⟩ := Option.map_eq_some_iff.mp hx
    exact OverriddenObject.judged (hoverrides _ (Json.mem_of_lookup ho))
  intro x hx
  rcases List.mem_cons.mp hx with rfl | hx
  · exact OverriddenObject.judged h.config
  · rcases List.mem_append.mp hx with hx | hx
    · exact hitems h.resources x hx
    · exact hitems h.dataSources x hx

namespace Compilation

/-- What a run reports of pairing are the warnings about names and those about fields; the latter
are the warnings about each object of which the document says something, and these go as far as is
said there. -/
theorem run_judged (disk : Disk) (document : Document) (options : RunOptions)
    (hdistinct : document.OverridesDistinct) {c : Compilation} (hrun : run disk document options = .ok c) :
    c.diagnostics.filter (fun d => d.phase == "normalize") =
        document.paired.2.map (fun w => Diagnostic.warning "normalize" w.message) ∧
      document.paired.2.filter PairingWarning.isAboutField =
        document.overriddenObjects.flatMap OverriddenObject.warnings ∧
      ∀ x ∈ document.overriddenObjects, x.Judged := by
  cases eq_finished_of_run disk document options hrun
  exact ⟨pairingDiagnostics_finished disk document options, document.filter_paired, hdistinct.judged⟩

/-- A document that says something about a field of the objects in a list, and about another that
they do not have. -/
def routeDocument : Document where
  name := "acme"
  provider := { resources := [("acme_route", [("hops", .listOfObjects [("port", .ofScalar .int)])])] }
  resources := [("acme_route", {
    token := "acme:index:Route"
    fields := [("hops", { fields := [("port", {}), ("prot", {})] })] })]

theorem routeDocument_judged : routeDocument.OverridesDistinct ∧
    ∃ c, run default routeDocument {} = .ok c ∧
      c.diagnostics.filter (fun d => d.phase == "normalize") = [Diagnostic.warning "normalize"
        "Custom resource schema acme_route.hops.prot was not present in the Terraform metadata"] ∧
      ∀ x ∈ routeDocument.overriddenObjects, x.fields.HoldsObjects ∧ x.Exact .ultimate := by
  have hhops : FieldOverride.DistinctKeys { fields := [("port", {}), ("prot", {})] } := by
    refine .intro (by decide) (fun key inner hmem => ?_) (fun e he => by cases he)
    rcases List.mem_pair.mp hmem with heq | heq
    · cases heq
      exact FieldOverride.distinctKeys_default
    · cases heq
      exact FieldOverride.distinctKeys_default
  have hdistinct : routeDocument.OverridesDistinct := by
    refine ⟨⟨.nil, fun _ _ hmem => by cases hmem⟩, fun item hitem => ?_, fun item hitem => by cases hitem⟩
    cases List.mem_singleton.mp hitem
    exact .singleton hhops "hops"
  have hholds : ∀ x ∈ routeDocument.overriddenObjects, x.fields.HoldsObjects := by
    intro x hx
    rcases List.mem_pair.mp hx with rfl | rfl
    · intro key f hf
      cases hf
    · intro key f hf
      cases List.mem_singleton.mp hf
      refine .object (fun key f hf => ?_)
      cases List.mem_singleton.mp hf
      exact .scalar
  have hrun : run default routeDocument {} = .ok (finished default routeDocument {}) :=
    run_eq_finished default routeDocument {} (by decide)
  obtain ⟨-, -, hjudged⟩ := run_judged default routeDocument {} hdistinct hrun
  exact ⟨hdistinct, _, hrun, by decide +kernel,
    fun x hx => ⟨hholds x hx, (hjudged x hx).holdsObjects (hholds x hx)⟩⟩

def gridFields : ObjectSchema :=
  [("cols", .listOf (.listOfObjects [("size", .ofScalar .int)])),
    ("rows", .listOf (.listOfObjects [("size", .ofScalar .int)]))]

/-- The override of the element of the one says something about a field that the objects have. The
override of the element of the element of the other says something about a field that they do not
have. -/
def gridOverrides : FieldOverrides :=
  [("cols", .ofElement (.ofElement (.about "weight" {}))), ("rows", .ofElement (.about "size" {}))]

def gridDocument : Document where
  name := "acme"
  provider := { resources := [("acme_grid", gridFields)] }
  resources := [("acme_grid", { token := "acme:index:Grid", fields := gridOverrides })]

/-- The field that is there is said to be missing, and nothing is said about the other, which is not. -/
theorem gridDocument_misjudged : ∃ c, run default gridDocument {} = .ok c ∧
    c.diagnostics.filter (fun d => d.phase == "normalize") = [Diagnostic.warning "normalize"
      "Custom resource schema acme_grid.rows.size was not present in the Terraform metadata"] ∧
    OverrideView.ultimate.Entry gridFields (fun key => gridOverrides.lookup key) ["rows", "size"]
      (some (.ofScalar .int)) ∧
    OverrideView.ultimate.Entry gridFields (fun key => gridOverrides.lookup key) ["cols", "weight"] none ∧
    ∃ x ∈ gridDocument.overriddenObjects, ¬ x.Exact .ultimate := by
  have hrows : OverrideView.ultimate.Entry gridFields (fun key => gridOverrides.lookup key) ["rows", "size"]
      (some (.ofScalar .int)) := .inside rfl rfl (.here (o := {}) rfl)
  have hcols : OverrideView.ultimate.Entry gridFields (fun key => gridOverrides.lookup key)
      ["cols", "weight"] none :=
    .inside rfl rfl (.here (o := {}) rfl)
  refine ⟨_, run_eq_finished default gridDocument {} (by decide), by decide +kernel, hrows, hcols,
    ⟨.resource, some "acme_grid", gridFields, gridOverrides⟩, List.mem_cons_of_mem _ List.mem_cons_self, ?_⟩
  rintro ⟨paths, hwarnings, -, hentries, -⟩
  have hnoticed : overrideWarning .resource (some "acme_grid") ["cols", "weight"] ∈
      OverriddenObject.warnings ⟨.resource, some "acme_grid", gridFields, gridOverrides⟩ := by
    rw [hwarnings]
    exact List.mem_map_of_mem ((hentries _ none hcols).mpr rfl)
  exact absurd hnoticed (by decide +kernel)

end Compilation

end ProviderSdk
