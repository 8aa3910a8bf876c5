import ProviderSdk.Json.Record
import ProviderSdk.Settings.Preferences

/-!
# Preferences as JSON
-/

namespace ProviderSdk.Preferences

open Json (Reader)
open Json.Reader (RecordField RecordForm record)

def optionalField (key : String) (set : Preferences → Option String → Preferences) :
    RecordField Preferences :=
  .placed key (Json.Reader.option Json.Reader.text) set

def form : RecordForm Preferences where
  unknown := .refused
  empty := {}
  fields := [
    optionalField "package" (fun p s => { p with package := s }),
    optionalField "version" (fun p s => { p with version := s }),
    optionalField "schema" (fun p s => { p with schema := s.map Path.mk }),
    optionalField "out" (fun p s => { p with out := s.map Path.mk }),
    optionalField "overlays" (fun p s => { p with overlays := s.map Path.mk }),
    optionalField "docs" (fun p s => { p with docs := s.map Path.mk }),
    .of "languages" (Json.Reader.list (Json.Reader.choice (Language.all.map (fun l => (l.name, l)))))
      (fun p ls => { p with languages := ls })]

def reader : Reader Preferences := record form

end ProviderSdk.Preferences
