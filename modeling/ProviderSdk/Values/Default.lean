import ProviderSdk.Schema.Override
import ProviderSdk.Text.Casing
import ProviderSdk.Values.Coercion

/-!
# Default values

Which value a field has when a resource is created or updated. A given value wins. Then an old value
is kept if the field has any default; otherwise the default of the override counts, which is an
environment variable, a literal or a computed value, in this order; and last the default of the
schema, unless the field is deprecated.
-/

namespace ProviderSdk

abbrev Environment := String → Option String

def propertyName (key : String) (override : Option FieldOverride) : String :=
  match override.bind (fun o => o.name) with
  | some name => if name = "" then Text.canonicalName key else name
  | none => Text.canonicalName key

/-- The value of the first variable that is set to one. -/
def firstEnvValue? (kind : ValueKind) (env : Environment) (names : List String) : Option Json :=
  names.findSome? (fun name => (env name).bind (envValue? kind))

def DefaultOverride.value? (d : DefaultOverride) (kind : ValueKind) (props : Properties) (env : Environment) :
    Option Json :=
  (firstEnvValue? kind env d.envVars).or
    ((d.value.map (coerceNumber kind)).or (d.compute.bind (fun f => f props)))

/-- What the schema gives a field that nothing else gives a value. -/
def FieldSchema.schemaDefault? (f : FieldSchema) : Option Json :=
  if f.traits.deprecated.isSome then none else f.traits.default.map (coerceNumber f.kind)

def resolveDefault (field : FieldSchema) (override : Option FieldOverride) (old new : Option Json)
    (props : Properties) (env : Environment) : Option Json :=
  match new with
  | some value => some (coerceNumber field.kind value)
  | none =>
    let overrideDefault := override.bind (fun o => o.default)
    match old, overrideDefault.isSome || field.traits.default.isSome with
    | some old, true => some old
    | _, _ => (overrideDefault.bind (fun d => d.value? field.kind props env)).or field.schemaDefault?

end ProviderSdk
