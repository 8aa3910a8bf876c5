import ProviderSdk.Json.Value

/-!
# Fields of a provider schema

A provider describes its resources by fields: scalars, and lists, sets and maps of an element, which
is a field again or an object with named fields. The fields of an object stand in the order of their
keys.
-/

namespace ProviderSdk

/-- Kinds of fields without parts. -/
inductive ScalarKind where
  | bool
  | int
  | float
  | string
  deriving DecidableEq, Repr

inductive CollectionKind where
  | list
  | set
  | map
  deriving DecidableEq, Repr

/-- The kind of a value, whatever its elements are. -/
inductive ValueKind where
  | scalar (kind : ScalarKind)
  | collection (kind : CollectionKind)
  deriving DecidableEq, Repr

def ScalarKind.name : ScalarKind → String
  | .bool => "bool"
  | .int => "int"
  | .float => "float"
  | .string => "string"

def CollectionKind.name : CollectionKind → String
  | .list => "list"
  | .set => "set"
  | .map => "map"

def ValueKind.name : ValueKind → String
  | .scalar kind => kind.name
  | .collection kind => kind.name

def ValueKind.all : List ValueKind :=
  [.scalar .bool, .scalar .int, .scalar .float, .scalar .string,
    .collection .list, .collection .set, .collection .map]

def ValueKind.ofName? (name : String) : Option ValueKind := all.find? (fun k => k.name == name)

/-- What a schema says about a field apart from its kind. -/
structure FieldTraits where
  optional : Bool := false
  required : Bool := false
  computed : Bool := false
  forceNew : Bool := false
  sensitive : Bool := false
  /-- Zero stands for no bound. -/
  maxItems : Nat := 0
  minItems : Nat := 0
  deprecated : Option String := none
  removed : Option String := none
  description : String := ""
  default : Option Json := none
  deriving Repr, Inhabited

mutual

inductive FieldSchema where
  | scalar (kind : ScalarKind) (traits : FieldTraits)
  | collection (kind : CollectionKind) (element : Element) (traits : FieldTraits)

inductive Element where
  | field (schema : FieldSchema)
  | object (fields : List (String × FieldSchema))

end

abbrev ObjectSchema := List (String × FieldSchema)

namespace FieldSchema

instance : Inhabited FieldSchema := ⟨.scalar .string {}⟩

/-- What the schema says about the field apart from its kind. -/
def traits : FieldSchema → FieldTraits
  | .scalar _ traits => traits
  | .collection _ _ traits => traits

def kind : FieldSchema → ValueKind
  | .scalar kind _ => .scalar kind
  | .collection kind _ _ => .collection kind

def element? : FieldSchema → Option Element
  | .scalar _ _ => none
  | .collection _ element _ => some element

def withTraits (f : FieldSchema) (traits : FieldTraits) : FieldSchema :=
  match f with
  | .scalar kind _ => .scalar kind traits
  | .collection kind element _ => .collection kind element traits

def modifyTraits (change : FieldTraits → FieldTraits) (f : FieldSchema) : FieldSchema :=
  f.withTraits (change f.traits)

def isRemoved (f : FieldSchema) : Bool := f.traits.removed.isSome

def isInput (f : FieldSchema) : Bool := f.traits.optional || f.traits.required

@[simp] theorem traits_withTraits (f : FieldSchema) (t : FieldTraits) : (f.withTraits t).traits = t := by
  cases f <;> rfl

@[simp] theorem kind_withTraits (f : FieldSchema) (t : FieldTraits) : (f.withTraits t).kind = f.kind := by
  cases f <;> rfl

@[simp] theorem element?_withTraits (f : FieldSchema) (t : FieldTraits) :
    (f.withTraits t).element? = f.element? := by
  cases f <;> rfl

/-- A scalar field of which nothing further is said. -/
def ofScalar (kind : ScalarKind) : FieldSchema := .scalar kind {}

def listOf (element : FieldSchema) : FieldSchema := .collection .list (.field element) {}

def listOfObjects (fields : ObjectSchema) : FieldSchema := .collection .list (.object fields) {}

end FieldSchema

end ProviderSdk
