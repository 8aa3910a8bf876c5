import ProviderSdk.Disk.Tree
import ProviderSdk.Json.Reading
import ProviderSdk.Schema.Location

/-!
# What may be wrong with the inputs

The causes for which a provider document or a configuration is not loaded, with what is said about each.
-/

namespace ProviderSdk

/-- The text of a file with the name it is known by. -/
structure SourceText where
  text : String
  name : String
  deriving DecidableEq, Repr

inductive LoadError where
  | unreadable (path : String) (reason : String)
  | json (source : SourceText) (error : Json.ReadError)
  | toml (source : SourceText)
  | malformedSchema (source : SourceText) (path reason : String)
  | missingInput (what : String)
  deriving DecidableEq, Repr

namespace LoadError

def message : LoadError → String
  | unreadable path _ => s!"failed to read '{path}'"
  | json _ _ => "failed to parse provider document"
  | toml _ => "failed to parse tfgen.toml"
  | malformedSchema _ path reason => s!"malformed schema node at '{path}': {reason}"
  | missingInput what => s!"missing required input: {what}"

def code : LoadError → String
  | unreadable _ _ => "tfgen::io"
  | json _ _ => "tfgen::json_parse_error"
  | toml _ => "tfgen::toml_parse_error"
  | malformedSchema _ _ _ => "tfgen::malformed_schema"
  | missingInput _ => "tfgen::missing_input"

def help? : LoadError → Option String
  | malformedSchema _ _ _ =>
    some ("fields need a known `type`; list, set and map fields need an `element` " ++
      "with `schema` or `resource`")
  | missingInput _ => some "set it in tfgen.toml under [generate] or pass it on the command line"
  | _ => none

def offset? : LoadError → Option Nat
  | json source (.malformed index) =>
    let cs := source.text.toList
    let position := Location.positionAt cs index
    Location.offset? cs position.line position.column
  | _ => none

def span? : LoadError → Option Location.Span
  | malformedSchema source path _ => Location.spanOfPath? source.text.toList path
  | _ => none

end LoadError

def SourceText.ofFile (disk : Disk) (path : Path) : Except LoadError SourceText :=
  match disk.readText path with
  | .ok text => .ok ⟨text, path.text⟩
  | .error e => .error (.unreadable path.text e.message)

end ProviderSdk
