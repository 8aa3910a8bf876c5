/-!
# Diagnostics

What a run has to say about its inputs: warnings, and errors about single items, which do not stop
the run but make it fail in the end.
-/

namespace ProviderSdk

inductive Severity where
  | error
  | warning
  deriving DecidableEq, Repr, Inhabited

def Severity.name : Severity → String
  | .error => "error"
  | .warning => "warning"

/-- A message of a phase, about an item or in general. -/
structure Diagnostic where
  severity : Severity
  phase : String
  message : String
  location : Option String := none
  deriving DecidableEq, Repr, Inhabited

namespace Diagnostic

def warning (phase message : String) : Diagnostic := ⟨.warning, phase, message, none⟩

def error (phase message : String) : Diagnostic := ⟨.error, phase, message, none⟩

def about (d : Diagnostic) (location : String) : Diagnostic := { d with location := some location }

def itemError (phase package item message : String) : Diagnostic :=
  (error phase (package ++ ":" ++ item ++ ": " ++ message)).about item

def isError (d : Diagnostic) : Bool := d.severity == .error

def isWarning (d : Diagnostic) : Bool := d.severity == .warning

def render (d : Diagnostic) : String :=
  d.severity.name ++ ": " ++ d.message ++
    match d.location with
    | some location => " (at " ++ location ++ ")"
    | none => ""

end Diagnostic

structure ErrorList where
  errors : List String
  deriving DecidableEq, Repr, Inhabited

/-- The text of several errors: their count and one line for each. -/
def ErrorList.render (e : ErrorList) : String :=
  let count := e.errors.length
  (if count = 1 then "1 error occurred:\n" else toString count ++ " errors occurred:\n") ++
    String.join (e.errors.map (fun error => "\t* " ++ error ++ "\n"))

end ProviderSdk
