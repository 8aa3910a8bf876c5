import ProviderSdk.Json.Reading

/-!
# Reading records

A record is an object with known keys, each at most once, or a list of the same values in the order
of the fields. A field that is not required keeps the value of the empty record.
-/

namespace ProviderSdk.Json.Reader

/-- Where the value of a field has to be given. -/
inductive Presence where
  | nowhere
  | inLists
  | everywhere
  deriving DecidableEq, Repr

structure RecordField (ρ : Type) where
  key : String
  presence : Presence
  read : ρ → Reader ρ

def RecordField.of {ρ α : Type} (key : String) (read : Reader α) (set : ρ → α → ρ) : RecordField ρ :=
  ⟨key, .nowhere, fun r => set r <$> read⟩

/-- A field that may be missing where it would be named, but keeps its place in a list. -/
def RecordField.placed {ρ α : Type} (key : String) (read : Reader α) (set : ρ → α → ρ) : RecordField ρ :=
  ⟨key, .inLists, fun r => set r <$> read⟩

def RecordField.needed {ρ α : Type} (key : String) (read : Reader α) (set : ρ → α → ρ) : RecordField ρ :=
  ⟨key, .everywhere, fun r => set r <$> read⟩

inductive UnknownKeys where
  | refused
  | skipped
  deriving DecidableEq, Repr

structure RecordForm (ρ : Type) where
  fields : List (RecordField ρ)
  unknown : UnknownKeys
  empty : ρ

namespace RecordForm

variable {ρ : Type}

/-- Whether a required field has not been seen. -/
def lacksRequired (form : RecordForm ρ) (seen : List String) : Bool :=
  form.fields.any (fun f => f.presence == .everywhere && !seen.contains f.key)

def members (form : RecordForm ρ) :
    (fuel : Nat) → (isFirst : Bool) → (seen : List String) → ρ → Reader ρ
  | 0, _, _, _ => refuseHere
  | fuel + 1, isFirst, seen, r => do
    if ← moreMembers isFirst then
      let k ← key
      match form.fields.find? (fun f => f.key == k) with
      | some f =>
        if seen.contains k then mismatch
        else do
          colon
          let r ← f.read r
          form.members fuel false (k :: seen) r
      | none =>
        match form.unknown with
        | .refused => mismatch
        | .skipped => do
          colon
          skipValue
          form.members fuel false seen r
    else if form.lacksRequired seen then mismatch
    else do
      leave
      pure r

def values : List (RecordField ρ) → (isFirst : Bool) → ρ → Reader ρ
  | [], _, r => do
    match ← peekToken? with
    | some ']' => do leave; pure r
    | some ',' => do
      advance
      let _ ← peekToken?
      refuseAhead
    | _ => refuseAhead
  | f :: fields, isFirst, r => do
    if ← moreItems isFirst then
      let r ← f.read r
      values fields false r
    else if (f :: fields).any (fun f => f.presence != .nowhere) then mismatch
    else do
      leave
      pure r

end RecordForm

def record {ρ : Type} (form : RecordForm ρ) : Reader ρ := do
  match ← peekToken? with
  | none => refuseAhead
  | some '[' => do enter; RecordForm.values form.fields true form.empty
  | some '\x7b' => do enter; form.members (← get).size true [] form.empty
  | some _ => refuseValue

/-- One of several words, written as a string, or as the only key of an object with the value `null`. -/
def choice {α : Type} (options : List (String × α)) : Reader α := do
  let pick (s : String) : Reader α :=
    match options.lookup s with
    | some a => pure a
    | none => mismatch
  match ← peekToken? with
  | some '"' => do
    advance
    pick (← stringBody)
  | some '\x7b' => do
    enter
    let a ← match ← peekToken? with
      | some '"' => do
        advance
        pick (← stringBody)
      | _ => refuseAhead
    colon
    match ← peekToken? with
    | some 'n' => do advance; word "ull".toList
    | some _ => refuseValue
    | none => refuseAhead
    match ← peekToken? with
    | some '\x7d' => do leave; pure a
    | _ => refuseHere
  | _ => refuseAhead

end ProviderSdk.Json.Reader
