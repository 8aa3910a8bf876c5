import ProviderSdk.Compile.Pairing
import ProviderSdk.Proofs.Schema.Nesting

/-!
# What is paired

The fields of an object that are not removed are paired in their order. Every name of a part of a
provider is paired or warned about, and every name of an override that the schema does not have is
warned about: the lists of names agree, so that nothing is warned about twice.
-/

namespace ProviderSdk

namespace PairingWarning

/-- The item of a part about which nothing is said, if the warning is about one. -/
def notMapped? (part : ProviderPart) : PairingWarning → Option String
  | .notMapped p rawName => if p = part then some rawName else none
  | _ => none

def notInSchema? (part : ProviderPart) : PairingWarning → Option (String × String)
  | .notInSchema p rawName token => if p = part then some (rawName, token) else none
  | _ => none

def IsAboutField : PairingWarning → Prop
  | .fieldNotInSchema _ _ => True
  | _ => False

end PairingWarning

def notMappedEnding : String := " not found in provider map; skipping"

def notInSchemaEnding : String := ") wasn't found in the Terraform module; possible name mismatch?"

/-- Whether a text begins with the title of a part and ends as given. -/
def isItemText (title ending text : String) : Bool :=
  (title ++ " ").toList.isPrefixOf text.toList && ending.toList.isSuffixOf text.toList

theorem isItemText_append (title ending opening subject close : String) :
    isItemText title ending (opening ++ subject ++ close) =
      ((title ++ " ").toList.isPrefixOf (opening.toList ++ (subject.toList ++ close.toList)) &&
        ending.toList.reverse.isPrefixOf (close.toList.reverse ++
          (opening.toList ++ subject.toList).reverse)) := by
  have htext : (opening ++ subject ++ close).toList = opening.toList ++ subject.toList ++ close.toList :=
    String.toList_append.trans (congrArg (fun cs => cs ++ close.toList) String.toList_append)
  rw [isItemText, List.isSuffixOf, htext, List.reverse_append, List.append_assoc]

namespace PairingWarning

variable {part : ProviderPart}

theorem message_eq (w : PairingWarning) : w.message = match w with
    | notMapped part rawName => part.title ++ " " ++ rawName ++ notMappedEnding
    | notInSchema part rawName token => part.title ++ " " ++ (rawName ++ " (" ++ token) ++ notInSchemaEnding
    | fieldNotInSchema part path =>
      "Custom " ++ (part.name ++ " schema " ++ path) ++ " was not present in the Terraform metadata" := by
  cases w with
  | notMapped part rawName => rfl
  | notInSchema part rawName token => simp [message, notInSchemaEnding, String.append_assoc]
  | fieldNotInSchema part path =>
    simp only [message, String.append_assoc]
    rfl

theorem isItemText_notMapped (w : PairingWarning) :
    isItemText part.title notMappedEnding w.message = (w.notMapped? part).isSome := by
  rw [message_eq]
  cases w with
  | notMapped other rawName =>
    rw [isItemText_append]
    cases part <;> cases other <;> rfl
  | notInSchema | fieldNotInSchema =>
    rw [isItemText_append]
    exact Bool.and_false _

theorem isItemText_notInSchema (w : PairingWarning) :
    isItemText part.title notInSchemaEnding w.message = (w.notInSchema? part).isSome := by
  rw [message_eq]
  cases w with
  | notInSchema other rawName token =>
    rw [isItemText_append]
    cases part <;> cases other <;> rfl
  | notMapped | fieldNotInSchema =>
    rw [isItemText_append]
    exact Bool.and_false _

end PairingWarning

open PairingWarning

variable {part : ProviderPart}

@[simp] theorem key_pairField (key : String) (override : Option FieldOverride) (f : FieldSchema) :
    (pairField key override f).key = key := by
  cases f <;> rfl

@[simp] theorem schema_pairField (key : String) (override : Option FieldOverride) (f : FieldSchema) :
    (pairField key override f).schema = f := by
  cases f <;> rfl

theorem mem_pairObject {overrides : OverrideLookup} {fields : ObjectSchema} {f : PairedField} :
    f ∈ pairObject overrides fields ↔
      ∃ key schema, (key, schema) ∈ fields ∧ schema.isRemoved = false ∧
        f = pairField key (overrides key) schema := by
  induction fields with
  | nil => simp [pairObject]
  | cons m rest ih =>
    obtain ⟨key, schema⟩ := m
    rw [pairObject]
    split
    · next hremoved =>
      rw [ih]
      constructor
      · rintro ⟨key', schema', hmem, hpaired⟩
        exact ⟨key', schema', List.mem_cons_of_mem _ hmem, hpaired⟩
      · rintro ⟨key', schema', hmem, hactive, hpaired⟩
        rcases List.mem_cons.mp hmem with heq | hmem
        · cases heq
          rw [hremoved] at hactive
          cases hactive
        · exact ⟨key', schema', hmem, hactive, hpaired⟩
    · next hactive =>
      rw [List.mem_cons, ih]
      constructor
      · rintro (rfl | ⟨key', schema', hmem, hpaired⟩)
        · exact ⟨key, schema, List.mem_cons_self, by simpa using hactive, rfl⟩
        · exact ⟨key', schema', List.mem_cons_of_mem _ hmem, hpaired⟩
      · rintro ⟨key', schema', hmem, hpaired⟩
        rcases List.mem_cons.mp hmem with heq | hmem
        · cases heq
          exact .inl hpaired.2
        · exact .inr ⟨key', schema', hmem, hpaired⟩

theorem keys_pairObject (overrides : OverrideLookup) (fields : ObjectSchema) :
    ((pairObject overrides fields).map (fun f => f.key)).Sublist (fields.map Prod.fst) := by
  induction fields with
  | nil => exact .refl _
  | cons m rest ih =>
    obtain ⟨key, schema⟩ := m
    rw [pairObject]
    split
    · exact ih.cons key
    · simpa using ih.cons_cons key

theorem checkedOverrides_isAboutField {checks : List (String × OverrideCheck)}
    (h : ∀ key check, (key, check) ∈ checks → ∀ path override, ∀ w ∈ check path override, w.IsAboutField)
    (owner : Option String) (overrides : FieldOverrides) :
    ∀ w ∈ checkedOverrides part checks owner overrides, w.IsAboutField := by
  intro w hw
  obtain ⟨⟨key, override⟩, _, hw⟩ := List.mem_flatMap.mp hw
  cases hcheck : checks.lookup key with
  | none =>
    simp only [hcheck, List.mem_singleton] at hw
    rw [hw]
    trivial
  | some check =>
    simp only [hcheck] at hw
    exact h key check (Json.mem_of_lookup hcheck) _ override w hw

theorem fieldChecks_eq (fields : List (String × FieldSchema)) :
    fieldChecks part fields = fields.map (fun (key, f) => (key, nestedCheck part f)) := by
  induction fields with
  | nil => rfl
  | cons m rest ih =>
    obtain ⟨key, f⟩ := m
    rw [fieldChecks, ih]
    rfl

theorem nestedCheck_isAboutField (f : FieldSchema) (path : String) (override : FieldOverride) :
    ∀ w ∈ nestedCheck part f path override, w.IsAboutField := by
  induction f generalizing path override with
  | scalar => exact @checkedOverrides_isAboutField part [] (by simp) _ _
  | field => exact @checkedOverrides_isAboutField part [] (by simp) _ _
  | object kind fields traits ih =>
    refine checkedOverrides_isAboutField ?_ _ _
    intro key check hcheck
    rw [elementChecks, fieldChecks_eq] at hcheck
    obtain ⟨⟨_, f⟩, hf, heq⟩ := List.mem_map.mp hcheck
    cases heq
    exact ih key f hf

theorem unmatchedOverrides_isAboutField (owner : Option String) (schema : ObjectSchema)
    (overrides : FieldOverrides) : ∀ w ∈ unmatchedOverrides part owner schema overrides, w.IsAboutField := by
  refine checkedOverrides_isAboutField ?_ owner overrides
  intro key check hcheck
  rw [fieldChecks_eq] at hcheck
  obtain ⟨⟨_, f⟩, _, heq⟩ := List.mem_map.mp hcheck
  cases heq
  exact nestedCheck_isAboutField f

@[simp] theorem notMapped?_unmatchedOverrides {other : ProviderPart} (owner : Option String)
    (schema : ObjectSchema) (overrides : FieldOverrides) :
    (unmatchedOverrides other owner schema overrides).filterMap (notMapped? part) = [] := by
  rw [List.filterMap_eq_nil_iff]
  intro w hw
  have hfield := unmatchedOverrides_isAboutField owner schema overrides w hw
  cases w with
  | fieldNotInSchema => rfl
  | _ => exact absurd hfield id

@[simp] theorem notInSchema?_unmatchedOverrides {other : ProviderPart} (owner : Option String)
    (schema : ObjectSchema) (overrides : FieldOverrides) :
    (unmatchedOverrides other owner schema overrides).filterMap (notInSchema? part) = [] := by
  rw [List.filterMap_eq_nil_iff]
  intro w hw
  have hfield := unmatchedOverrides_isAboutField owner schema overrides w hw
  cases w with
  | fieldNotInSchema => rfl
  | _ => exact absurd hfield id

variable (schema : List (String × ObjectSchema)) (overrides : List (String × ItemOverride))

def mappedNames : List String := (schema.map Prod.fst).filter (fun name => (overrides.lookup name).isSome)

/-- The names of a schema about which nothing is said. -/
def unmappedNames : List String := (schema.map Prod.fst).filter (fun name => (overrides.lookup name).isNone)

/-- What is said about names that a schema does not have: the names with their tokens. -/
def unknownNames : List (String × String) :=
  (overrides.filter (fun (rawName, _) => (schema.lookup rawName).isNone)).map
    (fun (rawName, o) => (rawName, o.token))

theorem mem_pairItems {item : PairedItem} (h : item ∈ (pairItems part schema overrides).1) :
    ∃ fields o, (item.rawName, fields) ∈ schema ∧ overrides.lookup item.rawName = some o ∧
      item.token = o.token ∧
      item.fields = pairObject (fun key => o.fields.lookup key) fields := by
  induction schema with
  | nil => simp [pairItems] at h
  | cons m rest ih =>
    obtain ⟨rawName, fields⟩ := m
    have hrest (hmem : item ∈ (pairItems part rest overrides).1) :
        ∃ fields' o, (item.rawName, fields') ∈ (rawName, fields) :: rest ∧
          overrides.lookup item.rawName = some o ∧ item.token = o.token ∧
          item.fields = pairObject (fun key => o.fields.lookup key) fields' := by
      obtain ⟨fields', o, hfields, ho⟩ := ih hmem
      exact ⟨fields', o, List.mem_cons_of_mem _ hfields, ho⟩
    cases hlookup : overrides.lookup rawName with
    | none => exact hrest (by simpa [pairItems, hlookup] using h)
    | some o =>
      simp only [pairItems, List.foldr_cons, hlookup, List.mem_cons] at h
      rcases h with rfl | h
      · exact ⟨fields, o, List.mem_cons_self, hlookup, rfl, rfl⟩
      · exact hrest h

theorem rawNames_pairItems : (pairItems part schema overrides).1.map (fun item => item.rawName) =
    mappedNames schema overrides := by
  induction schema with
  | nil => rfl
  | cons m rest ih =>
    obtain ⟨rawName, fields⟩ := m
    rw [mappedNames] at ih ⊢
    cases h : overrides.lookup rawName with
    | none => simpa [pairItems, h] using ih
    | some o => simpa [pairItems, h] using ih

variable {other : ProviderPart}

@[simp] theorem notMapped?_pairItems : (pairItems other schema overrides).2.filterMap (notMapped? part) =
    if other = part then unmappedNames schema overrides else [] := by
  induction schema with
  | nil => simp [pairItems, unmappedNames]
  | cons m rest ih =>
    obtain ⟨rawName, fields⟩ := m
    rw [unmappedNames] at ih ⊢
    cases h : overrides.lookup rawName with
    | none =>
      by_cases hpart : other = part
      · simpa [pairItems, h, notMapped?, hpart] using ih
      · simpa [pairItems, h, notMapped?, hpart] using ih
    | some o => simpa [pairItems, h] using ih

@[simp] theorem notInSchema?_pairItems :
    (pairItems other schema overrides).2.filterMap (notInSchema? part) = [] := by
  induction schema with
  | nil => rfl
  | cons m rest ih =>
    obtain ⟨rawName, fields⟩ := m
    cases h : overrides.lookup rawName with
    | none => simpa [pairItems, h, notInSchema?] using ih
    | some o => simpa [pairItems, h] using ih

@[simp] theorem notMapped?_unmatchedItems :
    (unmatchedItems other schema overrides).filterMap (notMapped? part) = [] := by
  rw [unmatchedItems, List.filterMap_map]
  exact List.filterMap_eq_nil_iff.mpr (fun _ _ => rfl)

@[simp] theorem notInSchema?_unmatchedItems :
    (unmatchedItems other schema overrides).filterMap (notInSchema? part) =
    if other = part then unknownNames schema overrides else [] := by
  rw [unmatchedItems, List.filterMap_map]
  by_cases hpart : other = part
  · rw [if_pos hpart, unknownNames, ← List.filterMap_eq_map]
    congr 1
    funext ⟨rawName, o⟩
    simp [notInSchema?, hpart]
  · rw [if_neg hpart]
    exact List.filterMap_eq_nil_iff.mpr (fun _ _ => if_neg hpart)

theorem token_pairItems : ∀ item ∈ (pairItems part schema overrides).1,
    ∃ o, overrides.lookup item.rawName = some o ∧ item.token = o.token := by
  intro item hitem
  obtain ⟨_, o, _, ho, htoken, _⟩ := mem_pairItems schema overrides hitem
  exact ⟨o, ho, htoken⟩

structure NamesAccounted (part : ProviderPart) (schema : List (String × ObjectSchema))
    (overrides : List (String × ItemOverride)) (items : List PairedItem) (warnings : List PairingWarning) :
    Prop where
  paired : items.map (fun item => item.rawName) = mappedNames schema overrides
  token : ∀ item ∈ items, ∃ o, overrides.lookup item.rawName = some o ∧ item.token = o.token
  notMapped : warnings.filterMap (notMapped? part) = unmappedNames schema overrides
  notInSchema : warnings.filterMap (notInSchema? part) = unknownNames schema overrides

theorem Document.resources_accounted (d : Document) :
    NamesAccounted .resource d.provider.resources d.resources d.paired.1.resources d.paired.2 where
  paired := rawNames_pairItems _ _
  token := token_pairItems _ _
  notMapped := by simp [Document.paired]
  notInSchema := by simp [Document.paired]

theorem Document.dataSources_accounted (d : Document) :
    NamesAccounted .dataSource d.provider.dataSources d.dataSources d.paired.1.dataSources d.paired.2 where
  paired := rawNames_pairItems _ _
  token := token_pairItems _ _
  notMapped := by simp [Document.paired]
  notInSchema := by simp [Document.paired]

end ProviderSdk
