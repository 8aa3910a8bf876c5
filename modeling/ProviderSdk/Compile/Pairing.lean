import ProviderSdk.Schema.Document

/-!
# Pairing schema and overrides

Every field of the schema that is not removed is paired with what the author says about it, level by
level. Items of the schema about which nothing is said are left out, and so is what is said about
items or fields that the schema does not have; both are warned about.
-/

namespace ProviderSdk

mutual

structure PairedField where
  key : String
  schema : FieldSchema
  override : Option FieldOverride
  element : Option PairedElement

inductive PairedElement where
  | field (f : PairedField)
  | object (fields : List PairedField)

end

instance : Inhabited PairedField := ⟨⟨"", default, none, none⟩⟩

/-- A resource or data source with what is said about it. -/
structure PairedItem where
  rawName : String
  /-- The token as it is said; empty if it is to be derived from the raw name. -/
  token : String
  docs : DocSource
  deleteBeforeReplace : Bool
  fields : List PairedField
  deriving Inhabited

structure PairedProvider where
  config : List PairedField := []
  resources : List PairedItem := []
  dataSources : List PairedItem := []
  deriving Inhabited

mutual

def pairField (key : String) (override : Option FieldOverride) : FieldSchema → PairedField
  | .scalar kind traits => ⟨key, .scalar kind traits, override, none⟩
  | .collection kind element traits =>
    ⟨key, .collection kind element traits, override, some (pairElement key override element)⟩
  termination_by structural f => f

def pairElement (key : String) (override : Option FieldOverride) : Element → PairedElement
  | .field f => .field (pairField key (override.bind (fun o => o.element)) f)
  | .object fields => .object (pairObject (fun key => override.bind (fun o => o.field? key)) fields)
  termination_by structural e => e

def pairObject (overrides : String → Option FieldOverride) : List (String × FieldSchema) → List PairedField
  | [] => []
  | (key, f) :: rest =>
    if f.isRemoved then pairObject overrides rest
    else pairField key (overrides key) f :: pairObject overrides rest
  termination_by structural fields => fields

end

inductive ProviderPart where
  | config
  | resource
  | dataSource
  deriving DecidableEq, Repr

def ProviderPart.name : ProviderPart → String
  | .config => "config"
  | .resource => "resource"
  | .dataSource => "data source"

/-- The name of a part of a provider at the start of a sentence. -/
def ProviderPart.title : ProviderPart → String
  | .config => "Config"
  | .resource => "Resource"
  | .dataSource => "Data source"

/-- What is noticed while schema and overrides are paired. -/
inductive PairingWarning where
  | notMapped (part : ProviderPart) (rawName : String)
  | notInSchema (part : ProviderPart) (rawName token : String)
  | fieldNotInSchema (part : ProviderPart) (path : String)
  deriving DecidableEq, Repr

def PairingWarning.message : PairingWarning → String
  | notMapped part rawName => s!"{part.title} {rawName} not found in provider map; skipping"
  | notInSchema part rawName token =>
    part.title ++ " " ++ rawName ++ " (" ++ token ++
      ") wasn't found in the Terraform module; possible name mismatch?"
  | fieldNotInSchema part path =>
    s!"Custom {part.name} schema {path} was not present in the Terraform metadata"

def pathBelow (owner : Option String) (key : String) : String :=
  match owner with
  | some owner => owner ++ "." ++ key
  | none => key

/-- What is said about the fields of the object that a container holds: what the override of the
element says stands in place of what the override of the container says. -/
def FieldOverride.nestedFields (o : FieldOverride) : FieldOverrides :=
  Json.Members.sorted (o.fields ++ ((o.element.map (fun e => e.fields)).getD []))

/-- What a field has to say about overrides of the fields of what it holds, at its path. -/
abbrev OverrideCheck := (path : String) → FieldOverride → List PairingWarning

/-- What the checks of the fields of an object have to say about overrides below a path. -/
def checkedOverrides (part : ProviderPart) (checks : List (String × OverrideCheck)) (owner : Option String)
    (overrides : FieldOverrides) : List PairingWarning :=
  overrides.flatMap (fun (key, override) =>
    match checks.lookup key with
    | some check => check (pathBelow owner key) override
    | none => [.fieldNotInSchema part (pathBelow owner key)])

mutual

def nestedCheck (part : ProviderPart) : FieldSchema → OverrideCheck
  | .scalar _ _ => fun path override => checkedOverrides part [] (some path) override.nestedFields
  | .collection _ element _ => fun path override =>
    checkedOverrides part (elementChecks part element) (some path) override.nestedFields
  termination_by structural f => f

def elementChecks (part : ProviderPart) : Element → List (String × OverrideCheck)
  | .field _ => []
  | .object fields => fieldChecks part fields
  termination_by structural e => e

def fieldChecks (part : ProviderPart) : List (String × FieldSchema) → List (String × OverrideCheck)
  | [] => []
  | (key, f) :: rest => (key, nestedCheck part f) :: fieldChecks part rest
  termination_by structural fields => fields

end

def unmatchedOverrides (part : ProviderPart) (owner : Option String) (schema : ObjectSchema)
    (overrides : FieldOverrides) : List PairingWarning :=
  checkedOverrides part (fieldChecks part schema) owner overrides

/-- The items of a part of a provider about which something is said, and what is noticed about each item. -/
def pairItems (part : ProviderPart) (schema : List (String × ObjectSchema))
    (overrides : List (String × ItemOverride)) : List PairedItem × List PairingWarning :=
  schema.foldr (fun (rawName, fields) (items, warnings) =>
    match overrides.lookup rawName with
    | none => (items, .notMapped part rawName :: warnings)
    | some o =>
      ({ rawName := rawName
         token := o.token
         docs := o.docs.getD {}
         deleteBeforeReplace := o.deleteBeforeReplace
         fields := pairObject (fun key => o.fields.lookup key) fields } :: items,
        unmatchedOverrides part (some rawName) fields o.fields ++ warnings)) ([], [])

/-- The items about which something is said and which the schema does not have. -/
def unmatchedItems (part : ProviderPart) (schema : List (String × ObjectSchema))
    (overrides : List (String × ItemOverride)) : List PairingWarning :=
  (overrides.filter (fun (rawName, _) => (schema.lookup rawName).isNone)).map
    (fun (rawName, o) => .notInSchema part rawName o.token)

/-- A document's schema paired with what the document says about it, and what is noticed on the way. -/
def Document.paired (d : Document) : PairedProvider × List PairingWarning :=
  let (resources, resourceWarnings) := pairItems .resource d.provider.resources d.resources
  let (dataSources, dataSourceWarnings) := pairItems .dataSource d.provider.dataSources d.dataSources
  ({ config := pairObject (fun key => d.config.lookup key) d.provider.config
     resources := resources
     dataSources := dataSources },
    unmatchedOverrides .config none d.provider.config d.config ++ resourceWarnings ++ dataSourceWarnings ++
      unmatchedItems .resource d.provider.resources d.resources ++
      unmatchedItems .dataSource d.provider.dataSources d.dataSources)

end ProviderSdk
