import ProviderSdk.Proofs.Compile.Pairing

/-!
# Entries of overrides

What overrides say about fields, level by level: from the override of a field one gets to the fields
of an object, which is the element of the field, or which stands in any number of collections, as
pairing finds it. An entry is what is said at a path of keys; the schema has a field there or not.
-/

namespace ProviderSdk

/-- In an override, and in all overrides below it, no key occurs twice. -/
inductive FieldOverride.DistinctKeys : FieldOverride → Prop where
  | intro {o : FieldOverride} (keys : (o.fields.map Prod.fst).Nodup)
      (fields : ∀ key f, (key, f) ∈ o.fields → DistinctKeys f)
      (element : ∀ e, o.element = some e → DistinctKeys e) : DistinctKeys o

/-- No key occurs twice among what is said about fields, at no depth. -/
structure FieldOverrides.DistinctKeys (overrides : FieldOverrides) : Prop where
  keys : (overrides.map Prod.fst).Nodup
  inner : ∀ key o, (key, o) ∈ overrides → o.DistinctKeys

/-- No override of an element has an override of its own element, at no depth. -/
inductive FieldOverride.Flat : FieldOverride → Prop where
  | intro {o : FieldOverride} (last : ∀ e, o.element = some e → e.element = none)
      (fields : ∀ key f, (key, f) ∈ o.fields → Flat f)
      (element : ∀ e, o.element = some e → Flat e) : Flat o

/-- Nothing that is said about fields goes to the element of an element, at no depth. -/
def FieldOverrides.Flat (overrides : FieldOverrides) : Prop := ∀ key o, (key, o) ∈ overrides → o.Flat

namespace FieldOverride

variable {o inner : FieldOverride} {key : String}

/-- What is said about a field stands in the override of the container, or in that of its element. -/
theorem mem_of_field? (h : o.field? key = some inner) :
    (key, inner) ∈ o.fields ∨ ∃ e, o.element = some e ∧ (key, inner) ∈ e.fields := by
  rcases Option.or_eq_some_iff.mp h with hinner | ⟨-, houter⟩
  · obtain ⟨e, he, hlookup⟩ := Option.bind_eq_some_iff.mp hinner
    exact .inr ⟨e, he, Json.mem_of_lookup hlookup⟩
  · exact .inl (Json.mem_of_lookup houter)

theorem Flat.field? (h : o.Flat) (hinner : o.field? key = some inner) : inner.Flat := by
  obtain ⟨-, fields, element⟩ := h
  rcases mem_of_field? hinner with hmem | ⟨e, he, hmem⟩
  · exact fields key inner hmem
  · obtain ⟨-, fields, -⟩ := element e he
    exact fields key inner hmem

theorem field?_of_element_none (h : o.element = none) : o.field? key = o.fields.lookup key := by
  rw [FieldOverride.field?, h]
  rfl

/-- What is checked about a field is what pairing finds. -/
theorem DistinctKeys.lookup_nestedFields (h : o.DistinctKeys) (key : String) :
    o.nestedFields.lookup key = o.field? key := by
  obtain ⟨keys, -, element⟩ := h
  rw [nestedFields, Json.lookup_sorted, List.reverse_append, List.lookup_append,
    Json.lookup_reverse_of_nodup keys, FieldOverride.field?]
  congr 1
  cases helement : o.element with
  | none => rfl
  | some e =>
    obtain ⟨keys, -, -⟩ := element e helement
    exact Json.lookup_reverse_of_nodup keys key

theorem DistinctKeys.nestedFields (h : o.DistinctKeys) : FieldOverrides.DistinctKeys o.nestedFields where
  keys := List.Pairwise.imp (fun hlt => ne_of_lt hlt) (Json.ascending_sorted _)
  inner key inner hmem := by
    obtain ⟨-, fields, element⟩ := h
    rcases List.mem_append.mp (Json.mem_of_mem_sorted hmem) with hmem | hmem
    · exact fields key inner hmem
    · cases helement : o.element with
      | none => simp [helement] at hmem
      | some e =>
        obtain ⟨-, fields, -⟩ := element e helement
        rw [helement] at hmem
        exact fields key inner hmem

end FieldOverride

def FieldSchema.elementFields : FieldSchema → ObjectSchema
  | .collection _ (.object fields) _ => fields
  | _ => []

mutual

def FieldSchema.heldFields : FieldSchema → ObjectSchema
  | .scalar _ _ => []
  | .collection _ element _ => element.heldFields
  termination_by structural f => f

def Element.heldFields : Element → ObjectSchema
  | .field f => f.heldFields
  | .object fields => fields
  termination_by structural e => e

end

mutual

/-- What an override says about the fields of the object that a field holds, however many
collections are around it: what is said further inside wins. -/
def FieldSchema.heldOverrides : FieldSchema → FieldOverride → OverrideLookup
  | .scalar _ _ => fun o key => o.field? key
  | .collection _ element _ => fun o key => element.heldOverrides o key
  termination_by structural f => f

def Element.heldOverrides : Element → FieldOverride → OverrideLookup
  | .field f => fun o key => (o.element.bind (fun e => f.heldOverrides e key)).or (o.field? key)
  | .object _ => fun o key => o.field? key
  termination_by structural e => e

end

theorem FieldSchema.heldOverrides_field (kind : CollectionKind) (f : FieldSchema) (traits : FieldTraits)
    (o : FieldOverride) (key : String) : heldOverrides (.collection kind (.field f) traits) o key =
      (o.element.bind (fun e => f.heldOverrides e key)).or (o.field? key) := rfl

inductive FieldSchema.HoldsObjects : FieldSchema → Prop where
  | scalar {kind traits} : HoldsObjects (.scalar kind traits)
  | object {kind fields traits} (inner : ∀ key f, (key, f) ∈ fields → HoldsObjects f) :
      HoldsObjects (.collection kind (.object fields) traits)

/-- No object stands in a collection of collections, at no depth. -/
inductive FieldSchema.HoldsDirectly : FieldSchema → Prop where
  | scalar {kind traits} : HoldsDirectly (.scalar kind traits)
  | field {kind f traits} (nothing : f.heldFields = []) : HoldsDirectly (.collection kind (.field f) traits)
  | object {kind fields traits} (inner : ∀ key f, (key, f) ∈ fields → HoldsDirectly f) :
      HoldsDirectly (.collection kind (.object fields) traits)

def ObjectSchema.HoldsObjects (schema : ObjectSchema) : Prop := ∀ key f, (key, f) ∈ schema → f.HoldsObjects

def ObjectSchema.HoldsDirectly (schema : ObjectSchema) : Prop := ∀ key f, (key, f) ∈ schema → f.HoldsDirectly

/-- A paired field holds an object with some paired fields, however many collections are around it. -/
inductive PairedField.Holds (fields : List PairedField) : PairedField → Prop where
  | object {f} (element : f.element = some (.object fields)) : Holds fields f
  | field {f inner} (element : f.element = some (.field inner)) (holds : Holds fields inner) : Holds fields f

theorem override_of_holds_none {key : String} {f : FieldSchema} {fields : List PairedField}
    (h : (pairField key none f).Holds fields) : ∀ g ∈ fields, g.override = none := by
  induction f generalizing key with
  | scalar kind traits =>
    cases h with
    | object element => cases element
    | field element _ => cases element
  | field kind inner traits ih =>
    cases h with
    | object element => cases element
    | field element holds =>
      cases element
      exact ih holds
  | object kind inner traits ih =>
    cases h with
    | object element =>
      cases element
      intro g hg
      obtain ⟨_, schema, -, -, rfl⟩ := mem_pairObject.mp hg
      cases schema <;> rfl
    | field element _ => cases element

/-- Whatever pairing pairs with a field of the object that a field holds is what the override of the
field says about it. -/
theorem heldOverrides_of_holds {key : String} {o said : FieldOverride} {f : FieldSchema}
    {fields : List PairedField} (h : (pairField key (some o) f).Holds fields) {g : PairedField}
    (hg : g ∈ fields) (hsaid : g.override = some said) :
    f.heldOverrides o g.key = some said := by
  induction f generalizing key o with
  | scalar kind traits =>
    cases h with
    | object element => cases element
    | field element _ => cases element
  | field kind inner traits ih =>
    cases h with
    | object element => cases element
    | field element holds =>
      cases element
      rw [FieldSchema.heldOverrides_field]
      cases helement : o.element with
      | none =>
        -- Without an override of the element nothing inside is paired with one.
        rw [Option.bind_some, helement] at holds
        rw [override_of_holds_none holds g hg] at hsaid
        cases hsaid
      | some e =>
        rw [Option.bind_some, helement] at holds
        rw [Option.bind_some, ih holds]
        rfl
  | object kind inner traits ih =>
    cases h with
    | object element =>
      cases element
      obtain ⟨inner, schema, -, -, rfl⟩ := mem_pairObject.mp hg
      rw [key_pairField]
      cases schema <;> exact hsaid
    | field element _ => cases element

/-- A way of going from a field and its override to the fields of an object and what is said about them. -/
structure OverrideView where
  fields : FieldSchema → ObjectSchema
  overrides : FieldSchema → FieldOverride → OverrideLookup

def OverrideView.direct : OverrideView := ⟨FieldSchema.elementFields, fun _ o key => o.field? key⟩

/-- To the object that the field holds, however many collections are around it. -/
def OverrideView.ultimate : OverrideView := ⟨FieldSchema.heldFields, FieldSchema.heldOverrides⟩

/-- Overrides have an entry at a path of keys, and there the schema has the field that was found, or none. -/
inductive OverrideView.Entry (view : OverrideView) :
    ObjectSchema → OverrideLookup → List String → Option FieldSchema → Prop where
  | here {fields overrides key o} (said : overrides key = some o) :
    Entry view fields overrides [key] (fields.lookup key)
  | inside {fields overrides key o f path found} (said : overrides key = some o)
    (field : fields.lookup key = some f)
      (inner : Entry view (view.fields f) (view.overrides f o) path found) :
      Entry view fields overrides (key :: path) found

namespace OverrideView

variable {view view' : OverrideView} {fields : ObjectSchema} {overrides : OverrideLookup} {path : List String}
  {found found' : Option FieldSchema}

theorem not_entry_nil : ¬ view.Entry fields overrides [] found := by
  rintro ⟨⟩

theorem Entry.unique (h : view.Entry fields overrides path found)
    (h' : view.Entry fields overrides path found') :
    found = found' := by
  induction h with
  | here said =>
    cases h' with
    | here _ => rfl
    | inside _ _ inner => exact absurd inner not_entry_nil
  | inside said field inner ih =>
    cases h' with
    | here _ => exact absurd inner not_entry_nil
    | inside said' field' inner' =>
      obtain rfl := Option.some.inj (said.symm.trans said')
      obtain rfl := Option.some.inj (field.symm.trans field')
      exact ih inner'

theorem Entry.of_agree {agree : FieldSchema → FieldOverride → Prop}
    (hagree : ∀ f o, agree f o → view'.fields f = view.fields f ∧ view'.overrides f o = view.overrides f o ∧
      ∀ key g inner, (view.fields f).lookup key = some g →
        view.overrides f o key = some inner → agree g inner)
    (h : view.Entry fields overrides path found)
    (hfields : ∀ key f o, fields.lookup key = some f → overrides key = some o → agree f o) :
    view'.Entry fields overrides path found := by
  induction h with
  | here said => exact .here said
  | inside said field inner ih =>
    obtain ⟨hfields', hoverrides, hinner⟩ := hagree _ _ (hfields _ _ _ field said)
    refine .inside said field ?_
    rw [hfields', hoverrides]
    exact ih hinner

theorem entry_iff_of_agree (agree : FieldSchema → FieldOverride → Prop)
    (hagree : ∀ f o, agree f o → view'.fields f = view.fields f ∧ view'.overrides f o = view.overrides f o ∧
      ∀ key g inner, (view.fields f).lookup key = some g →
        view.overrides f o key = some inner → agree g inner)
    (hfields : ∀ key f o, fields.lookup key = some f → overrides key = some o → agree f o) :
    view'.Entry fields overrides path found ↔ view.Entry fields overrides path found := by
  refine ⟨fun h => h.of_agree (fun f o hfo => ?_) hfields, fun h => h.of_agree hagree hfields⟩
  obtain ⟨hfields', hoverrides, hinner⟩ := hagree f o hfo
  refine ⟨hfields'.symm, hoverrides.symm, ?_⟩
  rw [hfields', hoverrides]
  exact hinner

end OverrideView

end ProviderSdk
