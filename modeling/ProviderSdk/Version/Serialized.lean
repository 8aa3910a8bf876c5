import ProviderSdk.Json.Printer
import ProviderSdk.Json.Reading
import ProviderSdk.Version

/-!
# Versions as JSON

In JSON a version is a string. A string that writes no version is refused as one of the wrong form.
-/

namespace ProviderSdk.Version

def toJson (v : Version) : Json := .str v.render

def reader : Json.Reader Version := do
  match parse (← Json.Reader.text) with
  | .ok v => pure v
  | .error _ => Json.Reader.mismatch

def ofJsonText (text : String) : Except Json.ReadError Version := Json.Reader.run reader text .stepwise

end ProviderSdk.Version
