import ProviderSdk.Decimal.Binary64

/-!
# JSON values

The values of a JSON text. A number written without fraction and exponent is an integer, as far as
64 bits hold it; any other number is binary floating point. The members of an object keep their
order, which is that of their keys wherever a value has been read.
-/

namespace ProviderSdk

open Decimal (Binary64)

inductive Number where
  | int (n : Int)
  | float (x : Binary64)
  deriving DecidableEq, Repr, Inhabited

inductive Json where
  | null
  | bool (b : Bool)
  | num (n : Number)
  | str (s : String)
  | arr (items : List Json)
  | obj (members : List (String × Json))
  deriving BEq, Repr, Inhabited

namespace Json

def int (n : Int) : Json := .num (.int n)

def texts (items : List String) : Json := .arr (items.map Json.str)

def option {α : Type} (f : α → Json) : Option α → Json
  | some a => f a
  | none => .null

/-- A member put into a list of members that is sorted by key; a member of the same key is replaced. -/
def insertMember {α : Type} (key : String) (value : α) : List (String × α) → List (String × α)
  | [] => [(key, value)]
  | (k, v) :: rest =>
    if key = k then (key, value) :: rest
    else if key < k then (key, value) :: (k, v) :: rest
    else (k, v) :: insertMember key value rest

/-- Members sorted by key; of members with one key the last stands. -/
def Members.sorted {α : Type} (members : List (String × α)) : List (String × α) :=
  members.foldl (fun acc (k, v) => insertMember k v acc) []

/-- An object with the given members, sorted; of members with one key the last stands. -/
def ofMembers (members : List (String × Json)) : Json := .obj (Members.sorted members)

def member? (key : String) : Json → Option Json
  | .obj members => members.lookup key
  | _ => none

def text? : Json → Option String
  | .str s => some s
  | _ => none

def bool? : Json → Option Bool
  | .bool b => some b
  | _ => none

def int? : Json → Option Int
  | .num (.int n) => some n
  | _ => none

def items? : Json → Option (List Json)
  | .arr items => some items
  | _ => none

def members? : Json → Option (List (String × Json))
  | .obj members => some members
  | _ => none

end Json

end ProviderSdk
