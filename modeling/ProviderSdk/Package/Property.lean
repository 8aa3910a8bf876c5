import ProviderSdk.Decimal.Binary64
import ProviderSdk.Token

/-!
# Properties and their types

A property is a field of a resource or data source as all generated libraries see it: with its
names, its type, its documentation and its default decided. The same field has one property for
inputs and another for outputs.
-/

namespace ProviderSdk

open Decimal (Binary64)

/-- Whether a property is given by the user or by the provider. -/
inductive Position where
  | input
  | output
  deriving DecidableEq, Repr, Inhabited

inductive Literal where
  | bool (b : Bool)
  | int (n : Int)
  | float (x : Binary64)
  | string (s : String)
  deriving DecidableEq, Repr, Inhabited

structure DefaultValue where
  literal : Option Literal := none
  envVars : List String := []
  computed : Bool := false
  deriving DecidableEq, Repr, Inhabited

/-- Whether generated code can fill the default in. -/
def DefaultValue.isRenderable (d : DefaultValue) : Bool := d.literal.isSome || !d.envVars.isEmpty

inductive AssetKind where
  | asset
  | archive
  deriving DecidableEq, Repr, Inhabited

def AssetKind.className : AssetKind → String
  | .asset => "Asset"
  | .archive => "Archive"

structure CustomType where
  token : Token
  altTypes : List Token
  deriving DecidableEq, Repr, Inhabited

mutual

inductive TypeRef where
  | bool
  | int
  | float
  | string
  | array (element : TypeRef)
  | map (element : TypeRef)
  | object (type : ObjectType)
  | custom (type : CustomType)
  | asset (kind : AssetKind)

structure ObjectType where
  name : String
  properties : List Property

/-- A property of a resource, a data source, the configuration or an object type. -/
structure Property where
  rawName : String
  name : String
  type : TypeRef
  optional : Bool
  doc : String
  description : String
  default : Option DefaultValue
  deprecation : Option String
  secret : Bool
  position : Position

end

instance : Inhabited TypeRef := ⟨.bool⟩
instance : Inhabited Property := ⟨⟨"", "", .bool, false, "", "", none, none, false, .input⟩⟩

mutual

/-- The object types in a type, outer ones before the ones inside. -/
def TypeRef.objects : TypeRef → List ObjectType
  | .array element => element.objects
  | .map element => element.objects
  | .object type => type :: type.innerObjects
  | _ => []
  termination_by structural t => t

def ObjectType.innerObjects : ObjectType → List ObjectType
  | ⟨_, properties⟩ => propertyObjects properties
  termination_by structural t => t

def propertyObjects : List Property → List ObjectType
  | [] => []
  | p :: rest => p.typeObjects ++ propertyObjects rest
  termination_by structural ps => ps

def Property.typeObjects : Property → List ObjectType
  | ⟨_, _, type, _, _, _, _, _, _, _⟩ => type.objects
  termination_by structural p => p

end

namespace TypeRef

def isString : TypeRef → Bool
  | .string => true
  | _ => false

/-- Whether the values of the type are truth values, numbers or texts. -/
def isPrimitive : TypeRef → Bool
  | .bool => true
  | .int => true
  | .float => true
  | .string => true
  | _ => false

end TypeRef

/-- Whether generated code checks that the user gives the property. -/
def Property.needsCheck (p : Property) : Bool := p.position == .input && !p.optional

end ProviderSdk
