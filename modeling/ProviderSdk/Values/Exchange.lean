import ProviderSdk.Values.Default

/-!
# Exchange of property values

Properties pass between users and providers: users name them canonically, providers by the keys of
their schemas. `providerInputs` gives the provider what a user wrote, with defaults filled in;
`canonicalOutputs` gives the user what the provider answered.
-/

namespace ProviderSdk

/-- What is said about the fields of an object, by key. -/
abbrev OverrideLookup := String → Option FieldOverride

/-- What is said about the fields of the object that a field holds. -/
def innerOverrides (override : Option FieldOverride) : OverrideLookup :=
  fun key => override.bind (fun o => o.field? key)

def Json.object? (j : Option Json) : Option Properties := j.bind Json.members?

mutual

/-- A value under the names and kinds of the provider, its field being known. Values of a form that
the field does not have stay as they are. -/
def providerValue (env : Environment) :
    FieldSchema → (override : Option FieldOverride) → (old : Option Json) →
    Json → Json
  | .scalar _ _, _, _, value => value
  | .collection _ element _, override, old, value => providerHeld env element override old value
  termination_by structural f => f

def providerHeld (env : Environment) : Element → (override : Option FieldOverride) → (old : Option Json) →
    Json → Json
  | .object fields, override, old, .obj members =>
    .obj (providerMembers env fields (innerOverrides override) (Json.object? old) members)
  | .object fields, override, _, .arr items =>
    .arr (items.map (fun item =>
      match item with
      | .obj members => .obj (providerMembers env fields (innerOverrides override) none members)
      | other => other))
  | .field f, _, _, .arr items => .arr (items.map (coerceNumber f.kind))
  | .field f, _, _, .obj members => .obj (members.map (fun (k, v) => (k, coerceNumber f.kind v)))
  | _, _, _, value => value
  termination_by structural e => e

/-- The members of an object under the keys of its fields, each field with its default if it has no value. -/
def providerMembers (env : Environment) : List (String × FieldSchema) → OverrideLookup →
    (olds : Option Properties) → (news : Properties) → Properties
  | [], _, _, _ => []
  | (key, f) :: rest, overrides, olds, news =>
    let others := providerMembers env rest overrides olds news
    if f.isRemoved then others
    else
      let override := overrides key
      let name := propertyName key override
      let old := olds.bind (fun o => o.lookup name)
      match resolveDefault f override old (news.lookup name) news env with
      | some value => (key, providerValue env f override old value) :: others
      | none => others
  termination_by structural fields => fields

end

/-- Canonical properties under the keys of the provider. -/
def providerInputs (news : Properties) (olds : Option Properties) (schema : ObjectSchema)
    (overrides : FieldOverrides) (env : Environment) : Properties :=
  providerMembers env schema (fun key => overrides.lookup key) olds news

mutual

/-- A value of the provider under canonical names, its field being known. -/
def canonicalValue (field : FieldSchema) (override : Option FieldOverride) : Json → Json
  | .obj members =>
    match field.element? with
    | some (.object fields) =>
      .obj (Json.Members.sorted (canonicalMembers fields (innerOverrides override) members))
    | _ => .obj members
  | .arr items =>
    match field.element? with
    | some (.object fields) => .arr (canonicalItems fields (innerOverrides override) items)
    | some (.field f) => .arr (items.map (coerceNumber f.kind))
    | none => .arr items
  | value => coerceNumber field.kind value
  termination_by structural value => value

def canonicalItems (schema : ObjectSchema) (overrides : OverrideLookup) : List Json → List Json
  | [] => []
  | .obj members :: rest =>
    .obj (Json.Members.sorted (canonicalMembers schema overrides members)) ::
      canonicalItems schema overrides rest
  | item :: rest => item :: canonicalItems schema overrides rest
  termination_by structural items => items

/-- The members that have a field, under canonical names. -/
def canonicalMembers (schema : ObjectSchema) (overrides : OverrideLookup) :
    List (String × Json) → List (String × Json)
  | [] => []
  | (key, value) :: rest =>
    match schema.lookup key with
    | none => canonicalMembers schema overrides rest
    | some f =>
      (propertyName key (overrides key), canonicalValue f (overrides key) value) ::
        canonicalMembers schema overrides rest
  termination_by structural members => members

end

/-- Properties of the provider under canonical names. Members without a field are left out. -/
def canonicalOutputs (raw : Properties) (schema : ObjectSchema) (overrides : FieldOverrides) : Properties :=
  Json.Members.sorted (canonicalMembers schema (fun key => overrides.lookup key) raw)

end ProviderSdk
