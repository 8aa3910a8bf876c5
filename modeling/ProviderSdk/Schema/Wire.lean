import ProviderSdk.Schema.Document
import ProviderSdk.Schema.LoadError

/-!
# Fields as documents write them

A document writes a field as a loose object: the type is any word, and an element may be described
in two ways, in both or in neither. `WireField.check` turns such a tree into a field schema, or
names the first node that makes no sense, by its path.
-/

namespace ProviderSdk

mutual

structure WireField where
  type : String
  traits : FieldTraits
  element : Option WireElement

structure WireElement where
  schema : Option WireField
  resource : Option (List (String × WireField))

end

instance : Inhabited WireField := ⟨⟨"", {}, none⟩⟩
instance : Inhabited WireElement := ⟨⟨none, none⟩⟩

structure WireProvider where
  schema : List (String × WireField) := []
  resources : List (String × List (String × WireField)) := []
  dataSources : List (String × List (String × WireField)) := []
  deriving Inhabited

/-- What makes no sense about a node. -/
inductive WireFault where
  | noElement (type : String)
  | unknownType (type : String)
  | bothElements
  | neitherElement
  deriving DecidableEq, Repr

/-- What is said about a node that makes no sense. -/
def WireFault.reason : WireFault → String
  | noElement type => s!"{type} field has no element descriptor"
  | unknownType type => s!"unknown field type '{type}'"
  | bothElements => "element carries both `schema` and `resource`"
  | neitherElement => "element carries neither `schema` nor `resource`"

/-- A node that makes no sense, at its path. -/
structure WireError where
  path : String
  fault : WireFault
  deriving DecidableEq, Repr

mutual

def WireField.check (path : String) : WireField → Except WireError FieldSchema
  | ⟨type, traits, element⟩ =>
    match ValueKind.ofName? type with
    | some (.scalar kind) => .ok (.scalar kind traits)
    | some (.collection kind) =>
      match element with
      | some e => do
        let e ← e.check (path ++ ".element")
        pure (.collection kind e traits)
      | none => .error ⟨path, .noElement type⟩
    | none => .error ⟨path, .unknownType type⟩
  termination_by structural f => f

def WireElement.check (path : String) : WireElement → Except WireError Element
  | ⟨some schema, none⟩ => do
    let f ← schema.check (path ++ ".schema")
    pure (.field f)
  | ⟨none, some fields⟩ => do
    let fields ← checkFields (path ++ ".resource") fields
    pure (.object fields)
  | ⟨some _, some _⟩ => .error ⟨path, .bothElements⟩
  | ⟨none, none⟩ => .error ⟨path, .neitherElement⟩
  termination_by structural e => e

def checkFields (path : String) : List (String × WireField) → Except WireError ObjectSchema
  | [] => .ok []
  | (key, f) :: rest => do
    let f ← f.check (path ++ "." ++ key)
    let rest ← checkFields path rest
    pure ((key, f) :: rest)
  termination_by structural fields => fields

end

/-- The items of a provider, each at the path of the section extended by its name. -/
def checkItems (path : String) (items : List (String × List (String × WireField))) :
    Except WireError (List (String × ObjectSchema)) :=
  items.mapM (fun (name, fields) => do
    let fields ← checkFields (path ++ "." ++ name) fields
    pure (name, fields))

/-- The provider schema that a written one describes: the configuration is looked at first, then the
resources, then the data sources. -/
def WireProvider.check (p : WireProvider) : Except WireError ProviderSchema := do
  let config ← checkFields "provider.schema" p.schema
  let resources ← checkItems "provider.resources" p.resources
  let dataSources ← checkItems "provider.dataSources" p.dataSources
  pure ⟨config, resources, dataSources⟩

end ProviderSdk
