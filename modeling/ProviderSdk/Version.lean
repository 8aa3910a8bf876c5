import ProviderSdk.Decimal.Reading
import ProviderSdk.Text.Split

/-!
# Package versions

A version is `major.minor.patch` with a pre-release tag or none. It is read with an optional `v` in
front, and with build metadata behind a plus sign, which is dropped.
-/

namespace ProviderSdk

structure Version where
  major : UInt32
  minor : UInt32
  patch : UInt32
  prerelease : Option String
  deriving DecidableEq, Repr

inductive VersionPart where
  | major
  | minor
  | patch
  deriving DecidableEq, Repr

inductive VersionError where
  | emptyPrerelease (text : String)
  | notThreeParts (text : String)
  | invalidNumber (part : VersionPart)
  deriving DecidableEq, Repr

def VersionError.message : VersionError → String
  | .emptyPrerelease text => s!"invalid version '{text}', empty pre-release"
  | .notThreeParts text => s!"invalid version '{text}', expected 'X.Y.Z'"
  | .invalidNumber .major => "invalid major"
  | .invalidNumber .minor => "invalid minor"
  | .invalidNumber .patch => "invalid patch"

namespace Version

/-- A version without pre-release tag. -/
def release (major minor patch : UInt32) : Version := ⟨major, minor, patch, none⟩

/-- The version of a package that names none. -/
def initial : Version := release 0 0 1

instance : Inhabited Version := ⟨initial⟩

def withPrerelease (v : Version) (tag : String) : Version := { v with prerelease := some tag }

/-- Whether the version has a pre-release tag. -/
def isPrerelease (v : Version) : Bool := v.prerelease.isSome

def base (v : Version) : String := s!"{v.major}.{v.minor}.{v.patch}"

def render (v : Version) : String :=
  match v.prerelease with
  | some tag => s!"{v.base}-{tag}"
  | none => v.base

/-- The form for package managers that let a pre-release float. -/
def floating (v : Version) : String := if v.isPrerelease then v.base ++ "-*" else v.base

def number (part : VersionPart) (digits : List Char) : Except VersionError UInt32 :=
  match Decimal.parseNat? (Nat.pow 2 32) (String.ofList digits) with
  | some n => .ok (UInt32.ofNat n)
  | none => .error (.invalidNumber part)

def parse (text : String) : Except VersionError Version := do
  let cs := text.toList
  let unprefixed := match cs with
    | 'v' :: rest => rest
    | _ => cs
  let withoutBuild := unprefixed.takeWhile (· != '+')
  let (core, prerelease) ← match Text.cutAt? (· == '-') withoutBuild with
    | some (_, []) => .error (.emptyPrerelease text)
    | some (core, tag) => .ok (core, some (String.ofList tag))
    | none => .ok (withoutBuild, none)
  match Text.splitAt '.' core with
  | [major, minor, patch] => do
    let major ← number .major major
    let minor ← number .minor minor
    let patch ← number .patch patch
    pure ⟨major, minor, patch, prerelease⟩
  | _ => .error (.notThreeParts text)

end Version

end ProviderSdk
