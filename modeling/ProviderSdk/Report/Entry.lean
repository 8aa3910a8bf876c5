/-!
# Reports

A report is a list of entries that say what is to be shown. How an entry looks, and on which of two
streams it appears, is decided for the terminal alone: warnings and errors go to the second stream,
so that the first can be piped.
-/

namespace ProviderSdk

inductive ReportEntry where
  | heading (name : String)
  | pair (key value : String)
  | item (text : String)
  | addition (text : String)
  | warning (message : String)
  | error (message : String)
  | divider (label : String)
  | line (text : String)
  | gap
  deriving DecidableEq, Repr, Inhabited

namespace ReportEntry

/-- Whether the entry appears on the second stream. -/
def isComplaint : ReportEntry → Bool
  | warning _ => true
  | error _ => true
  | _ => false

def shown : ReportEntry → String
  | heading name => name ++ ":"
  | pair key value => key ++ ": " ++ value
  | item text => "  - " ++ text
  | addition text => "  + " ++ text
  | warning message => "warning: " ++ message
  | error message => "error: " ++ message
  | divider label => "── " ++ label ++ " ──"
  | line text => text
  | gap => ""

/-- The entries of one stream as they look on a terminal, each on lines of its own. -/
def stream (complaints : Bool) (entries : List ReportEntry) : String :=
  String.join ((entries.filter (fun e => e.isComplaint == complaints)).map (fun e => e.shown ++ "\n"))

end ReportEntry

def counted (count : Nat) (noun : String) : String :=
  s!"{count} {noun}" ++ (if count = 1 then "" else "s")

end ProviderSdk
