import Mathlib.Data.Fintype.EquivFin
import Mathlib.Data.List.Nodup
import Mathlib.Data.Set.Function
import ProviderSdk.Proofs.Json.Members
import ProviderSdk.Values.Exchange

/-!
# Nested fields

Induction over the nesting of fields, and what is assumed of names at every level of it: the keys of
an object are distinct, as they are the keys of a map, and so are the canonical names of the fields
that are not removed. What is assumed of overrides at every depth of theirs stands here too.
-/

namespace ProviderSdk

/-- Induction over the nesting of fields. The fields of an object are taken all at once. -/
@[elab_as_elim, induction_eliminator]
theorem FieldSchema.nestedInduction {motive : FieldSchema → Prop}
    (scalar : ∀ kind traits, motive (.scalar kind traits))
    (field : ∀ kind f traits, motive f → motive (.collection kind (.field f) traits))
    (object : ∀ kind fields traits, (∀ key f, (key, f) ∈ fields → motive f) →
      motive (.collection kind (.object fields) traits))
    (f : FieldSchema) : motive f := by
  apply @FieldSchema.rec motive (fun e => ∀ kind traits, motive (.collection kind e traits))
    (fun fields => ∀ key f, (key, f) ∈ fields → motive f) (fun p => motive p.2)
  · exact scalar
  · exact fun kind element traits h => h kind traits
  · exact fun f h kind traits => field kind f traits h
  · exact fun fields h kind traits => object kind fields traits h
  · intro key f h
    simp at h
  · intro p rest hp hrest key f h
    rcases List.mem_cons.mp h with heq | hmem
    · cases heq
      exact hp
    · exact hrest key f hmem
  · exact fun _ _ h => h

/-- At every level of a field no key occurs twice. -/
inductive FieldSchema.DistinctKeys : FieldSchema → Prop where
  | scalar {kind traits} : DistinctKeys (.scalar kind traits)
  | field {kind f traits} (inner : DistinctKeys f) : DistinctKeys (.collection kind (.field f) traits)
  | object {kind fields traits} (keys : (fields.map Prod.fst).Nodup)
      (inner : ∀ key f, (key, f) ∈ fields → DistinctKeys f) :
      DistinctKeys (.collection kind (.object fields) traits)

/-- At every level of an object no key occurs twice. -/
structure ObjectSchema.DistinctKeys (schema : ObjectSchema) : Prop where
  keys : (schema.map Prod.fst).Nodup
  inner : ∀ key f, (key, f) ∈ schema → f.DistinctKeys

/-- A name that is neither empty nor a key. -/
theorem ObjectSchema.exists_freshName (fields : ObjectSchema) :
    ∃ name, name ≠ "" ∧ name ∉ fields.map Prod.fst := by
  obtain ⟨name, hname⟩ := Infinite.exists_notMem_finset (insert "" (fields.map Prod.fst).toFinset)
  rw [Finset.mem_insert, not_or, List.mem_toFinset] at hname
  exact ⟨name, hname⟩

def ObjectSchema.activeKeys (schema : ObjectSchema) : Set String :=
  {key | ∃ f, (key, f) ∈ schema ∧ f.isRemoved = false}

/-- No two fields of an object that are not removed have the same canonical name. -/
def ObjectSchema.NamesInjective (schema : ObjectSchema) (overrides : OverrideLookup) : Prop :=
  Set.InjOn (fun key => propertyName key (overrides key)) schema.activeKeys

theorem ObjectSchema.NamesInjective.of_nodup {schema : ObjectSchema} {overrides : OverrideLookup}
    (h : ((schema.map Prod.fst).map (fun key => propertyName key (overrides key))).Nodup) :
    schema.NamesInjective overrides := by
  rintro key ⟨f, hf, -⟩ key' ⟨f', hf', -⟩ heq
  exact List.inj_on_of_nodup_map h (List.mem_map_of_mem hf) (List.mem_map_of_mem hf') heq

/-- At every level of a field its object has injective names. -/
inductive FieldSchema.DistinctNames : FieldSchema → Option FieldOverride → Prop where
  | scalar {kind traits override} : DistinctNames (.scalar kind traits) override
  | field {kind f traits override} (inner : DistinctNames f (override.bind (fun o => o.element))) :
      DistinctNames (.collection kind (.field f) traits) override
  | object {kind fields traits override}
      (names : ObjectSchema.NamesInjective fields (innerOverrides override))
      (inner : ∀ key f, (key, f) ∈ fields → f.isRemoved = false →
        DistinctNames f (innerOverrides override key)) :
      DistinctNames (.collection kind (.object fields) traits) override

structure ObjectSchema.DistinctNames (schema : ObjectSchema) (overrides : OverrideLookup) : Prop where
  names : schema.NamesInjective overrides
  inner : ∀ key f, (key, f) ∈ schema → f.isRemoved = false → f.DistinctNames (overrides key)

inductive FieldOverride.NothingComputed : FieldOverride → Prop where
  | intro {o : FieldOverride} (default : ∀ d, o.default = some d → d.compute = none)
      (element : ∀ e, o.element = some e → NothingComputed e)
      (fields : ∀ key f, (key, f) ∈ o.fields → NothingComputed f) : NothingComputed o

/-- No default of any override is computed, at no depth. -/
def FieldOverrides.NothingComputed (overrides : FieldOverrides) : Prop :=
  ∀ key o, (key, o) ∈ overrides → o.NothingComputed

/-- Nothing that a lookup finds computes a default, at no depth. -/
def OverrideLookup.NothingComputed (overrides : OverrideLookup) : Prop :=
  ∀ key o, overrides key = some o → o.NothingComputed

theorem FieldOverrides.NothingComputed.lookup {overrides : FieldOverrides} (h : overrides.NothingComputed) :
    OverrideLookup.NothingComputed (fun key => overrides.lookup key) :=
  fun key o ho => h key o (Json.mem_of_lookup ho)

theorem FieldOverride.NothingComputed.inner {override : Option FieldOverride}
    (h : ∀ o, override = some o → o.NothingComputed) :
    OverrideLookup.NothingComputed (innerOverrides override) := by
  intro key f hf
  obtain ⟨o, rfl, hfield⟩ := Option.bind_eq_some_iff.mp hf
  obtain ⟨_, element, fields⟩ := h o rfl
  rcases Option.or_eq_some_iff.mp hfield with hinner | ⟨_, houter⟩
  · obtain ⟨e, he, hlookup⟩ := Option.bind_eq_some_iff.mp hinner
    obtain ⟨_, _, fields⟩ := element e he
    exact fields key f (Json.mem_of_lookup hlookup)
  · exact fields key f (Json.mem_of_lookup houter)

def ruleFields : ObjectSchema := [("target_arn", .scalar .string {}), ("weight", .scalar .int {})]

def ruleSchema : ObjectSchema :=
  [("region", .scalar .string { default := some (.str "north") }),
    ("rule", .collection .list (.object ruleFields) {})]

def ruleFieldOverrides : FieldOverrides :=
  [("target_arn", { name := some "target" }), ("weight", { name := some "share" })]

def ruleOverrides : FieldOverrides :=
  [("region", { name := some "zone", default := some { envVars := ["REGION"] } }),
    ("rule", { name := some "rules", fields := ruleFieldOverrides })]

def ruleInputs : Properties :=
  [("region", .str "south"), ("rule", .arr [.obj [("target_arn", .str "arn"), ("weight", .num (.int 3))]])]

theorem mem_ruleFields {key : String} {f : FieldSchema} (h : (key, f) ∈ ruleFields) :
    (key = "target_arn" ∧ f = .scalar .string {}) ∨ (key = "weight" ∧ f = .scalar .int {}) := by
  simpa [ruleFields] using h

theorem mem_ruleSchema {key : String} {f : FieldSchema} (h : (key, f) ∈ ruleSchema) :
    (key = "region" ∧ f = .scalar .string { default := some (.str "north") }) ∨
      (key = "rule" ∧ f = .collection .list (.object ruleFields) {}) := by
  simpa [ruleSchema] using h

theorem ruleSchema_distinctKeys : ruleSchema.DistinctKeys where
  keys := by decide
  inner := by
    intro key f h
    obtain ⟨-, rfl⟩ | ⟨-, rfl⟩ := mem_ruleSchema h
    · exact .scalar
    · refine .object (by decide) ?_
      intro key f h
      obtain ⟨-, rfl⟩ | ⟨-, rfl⟩ := mem_ruleFields h <;> exact .scalar

theorem ruleSchema_distinctNames : ruleSchema.DistinctNames (fun key => ruleOverrides.lookup key) where
  names := .of_nodup (by decide)
  inner := by
    intro key f h _
    obtain ⟨-, rfl⟩ | ⟨rfl, rfl⟩ := mem_ruleSchema h
    · exact .scalar
    · refine .object (.of_nodup (by decide)) ?_
      intro key f h _
      obtain ⟨-, rfl⟩ | ⟨-, rfl⟩ := mem_ruleFields h <;> exact .scalar

theorem ruleFieldOverrides_nothingComputed : ruleFieldOverrides.NothingComputed := by
  intro key o h
  simp only [ruleFieldOverrides, List.mem_cons, Prod.mk.injEq, List.not_mem_nil, or_false] at h
  obtain ⟨-, rfl⟩ | ⟨-, rfl⟩ := h <;> exact .intro (by simp) (by simp) (by simp)

theorem ruleOverrides_nothingComputed : ruleOverrides.NothingComputed := by
  intro key o h
  simp only [ruleOverrides, List.mem_cons, Prod.mk.injEq, List.not_mem_nil, or_false] at h
  obtain ⟨-, rfl⟩ | ⟨-, rfl⟩ := h
  · exact .intro (by simp) (by simp) (by simp)
  · exact .intro (by simp) (by simp) ruleFieldOverrides_nothingComputed

end ProviderSdk
