import ProviderSdk.Json.Printer
import ProviderSdk.Json.Record
import ProviderSdk.Schema.Wire

/-!
# Reading provider documents

The form of every record of a provider document, and how a document is loaded from its text. Fields
and overrides nest; `levels` bounds the nesting from the outside, far beyond what the limit on
brackets lets through.
-/

namespace ProviderSdk

open Json.Reader (RecordField RecordForm record)
open Json (Reader)

namespace Reading

/-- Numbers of items are natural numbers of 32 bits. -/
def itemCount : Reader Nat := Json.Reader.natBelow (Nat.pow 2 32)

def text : Reader String := Json.Reader.text

def bool : Reader Bool := Json.Reader.bool

def textMap : Reader (List (String × String)) := Json.Reader.map text

def textList : Reader (List String) := Json.Reader.list text

def optionalText : Reader (Option String) := Json.Reader.option text

def optionalValue : Reader (Option Json) := Json.Reader.option Json.Reader.value

def traitField {α : Type} (key : String) (read : Reader α) (set : FieldTraits → α → FieldTraits) :
    RecordField WireField :=
  .of key read (fun f a => { f with traits := set f.traits a })

/-- Fields; keys that mean nothing are skipped. -/
def wireFieldForm (element : Reader WireElement) : RecordForm WireField where
  unknown := .skipped
  empty := default
  fields := [
    .needed "type" text (fun f a => { f with type := a }),
    traitField "optional" bool (fun t a => { t with optional := a }),
    traitField "required" bool (fun t a => { t with required := a }),
    traitField "computed" bool (fun t a => { t with computed := a }),
    traitField "forceNew" bool (fun t a => { t with forceNew := a }),
    traitField "sensitive" bool (fun t a => { t with sensitive := a }),
    .of "element" (Json.Reader.option element) (fun f a => { f with element := a }),
    traitField "maxItems" itemCount (fun t a => { t with maxItems := a }),
    traitField "minItems" itemCount (fun t a => { t with minItems := a }),
    traitField "deprecated" optionalText (fun t a => { t with deprecated := a }),
    traitField "removed" optionalText (fun t a => { t with removed := a }),
    traitField "description" text (fun t a => { t with description := a }),
    traitField "default" optionalValue (fun t a => { t with default := a })]

def wireElementForm (field : Reader WireField) : RecordForm WireElement where
  unknown := .refused
  empty := default
  fields := [
    .of "schema" (Json.Reader.option field) (fun e a => { e with schema := a }),
    .of "resource" (Json.Reader.option (Json.Reader.map field)) (fun e a => { e with resource := a })]

def wireFieldWithin : (levels : Nat) → Reader WireField
  | 0 => Json.Reader.refuseHere
  | levels + 1 => record (wireFieldForm (record (wireElementForm (wireFieldWithin levels))))

def wireField : Reader WireField := wireFieldWithin (Json.depthLimit + 2)

def wireObject : Reader (List (String × WireField)) := Json.Reader.map wireField

def providerForm : RecordForm WireProvider where
  unknown := .refused
  empty := {}
  fields := [
    .of "schema" wireObject (fun p a => { p with schema := a }),
    .of "resources" (Json.Reader.map wireObject) (fun p a => { p with resources := a }),
    .of "dataSources" (Json.Reader.map wireObject) (fun p a => { p with dataSources := a })]

/-- The form of a file that stands behind a field. -/
def assetForm : Reader AssetForm :=
  Json.Reader.choice [("fileAsset", .fileAsset), ("bytesAsset", .bytesAsset), ("fileArchive", .fileArchive),
    ("bytesArchive", .bytesArchive)]

def assetRecord : RecordForm (Option AssetForm) where
  unknown := .refused
  empty := none
  fields := [.needed "kind" assetForm (fun _ a => some a)]

def defaultForm : RecordForm DefaultOverride where
  unknown := .refused
  empty := {}
  fields := [
    .of "value" optionalValue (fun d a => { d with value := a }),
    .of "envVars" textList (fun d a => { d with envVars := a })]

def fieldOverrideForm (inner : Reader FieldOverride) : RecordForm FieldOverride where
  unknown := .refused
  empty := {}
  fields := [
    .of "name" optionalText (fun o a => { o with name := a }),
    .of "type" optionalText (fun o a => { o with type := a }),
    .of "altTypes" textList (fun o a => { o with altTypes := a }),
    .of "element" (Json.Reader.option inner) (fun o a => { o with element := a }),
    .of "fields" (Json.Reader.map inner) (fun o a => { o with fields := a }),
    .of "asset" (Option.join <$> Json.Reader.option (record assetRecord)) (fun o a => { o with asset := a }),
    .of "default" (Json.Reader.option (record defaultForm)) (fun o a => { o with default := a }),
    .of "maxItemsOne" (Json.Reader.option bool) (fun o a => { o with maxItemsOne := a })]

def fieldOverrideWithin : (levels : Nat) → Reader FieldOverride
  | 0 => Json.Reader.refuseHere
  | levels + 1 => record (fieldOverrideForm (fieldOverrideWithin levels))

def fieldOverride : Reader FieldOverride := fieldOverrideWithin (Json.depthLimit + 2)

def fieldOverrides : Reader FieldOverrides := Json.Reader.map fieldOverride

def docForm : RecordForm DocSource where
  unknown := .refused
  empty := {}
  fields := [
    .of "source" optionalText (fun d a => { d with source := a }),
    .of "includeArgumentsFrom" optionalText (fun d a => { d with includeArgumentsFrom := a }),
    .of "includeAttributesFrom" optionalText (fun d a => { d with includeAttributesFrom := a })]

/-- The fields that overrides of resources and of data sources share. -/
def itemFields : List (RecordField ItemOverride) := [
  .needed "tok" text (fun o a => { o with token := a }),
  .of "fields" fieldOverrides (fun o a => { o with fields := a }),
  .of "docs" (Json.Reader.option (record docForm)) (fun o a => { o with docs := a })]

def dataSourceForm : RecordForm ItemOverride where
  unknown := .refused
  empty := default
  fields := itemFields

def resourceForm : RecordForm ItemOverride where
  unknown := .refused
  empty := default
  fields := itemFields ++ [.of "deleteBeforeReplace" bool (fun o a => { o with deleteBeforeReplace := a })]

def overlayForm (inner : Reader OverlayTree) : RecordForm OverlayTree where
  unknown := .refused
  empty := {}
  fields := [
    .of "files" textList (fun o a => { o with files := a }),
    .of "modules" (Json.Reader.map inner) (fun o a => { o with modules := a })]

/-- Hand-written files of at most `levels` nested modules. -/
def overlayWithin : (levels : Nat) → Reader OverlayTree
  | 0 => Json.Reader.refuseHere
  | levels + 1 => record (overlayForm (overlayWithin levels))

def overlay : Reader OverlayTree := overlayWithin (Json.depthLimit + 2)

def typeScriptForm : RecordForm TypeScriptPackaging where
  unknown := .refused
  empty := {}
  fields := [
    .of "dependencies" textMap (fun p a => { p with dependencies := a }),
    .of "devDependencies" textMap (fun p a => { p with devDependencies := a }),
    .of "peerDependencies" textMap (fun p a => { p with peerDependencies := a }),
    .of "overlay" (Json.Reader.option overlay) (fun p a => { p with overlay := a })]

def pythonForm : RecordForm PythonPackaging where
  unknown := .refused
  empty := {}
  fields := [
    .of "requires" textMap (fun p a => { p with requirements := a }),
    .of "overlay" (Json.Reader.option overlay) (fun p a => { p with overlay := a })]

def cSharpForm : RecordForm CSharpPackaging where
  unknown := .refused
  empty := {}
  fields := [
    .of "packageReferences" textMap (fun p a => { p with packageReferences := a }),
    .of "overlay" (Json.Reader.option overlay) (fun p a => { p with overlay := a })]

def goForm : RecordForm GoPackaging where
  unknown := .refused
  empty := {}
  fields := [
    .of "importBasePath" optionalText (fun p a => { p with importBasePath := a }),
    .of "overlay" (Json.Reader.option overlay) (fun p a => { p with overlay := a })]

def provenanceForm : RecordForm Provenance where
  unknown := .refused
  empty := {}
  fields := [
    .of "repo" text (fun p a => { p with repository := a }),
    .of "tag" optionalText (fun p a => { p with tag := a }),
    .of "commit" optionalText (fun p a => { p with commit := a })]

end Reading

/-- A document as it is written: all of it but the provider schema has its final form. -/
structure WireDocument where
  provider : WireProvider := {}
  document : Document := {}
  deriving Inhabited

namespace Reading

def documentField {α : Type} (key : String) (read : Reader α) (set : Document → α → Document) :
    RecordField WireDocument :=
  .of key read (fun w a => { w with document := set w.document a })

def documentForm : RecordForm WireDocument where
  unknown := .refused
  empty := {}
  fields := [
    documentField "name" text (fun d a => { d with name := a }),
    documentField "description" text (fun d a => { d with description := a }),
    documentField "keywords" textList (fun d a => { d with keywords := a }),
    documentField "license" text (fun d a => { d with license := a }),
    documentField "homepage" text (fun d a => { d with homepage := a }),
    documentField "repository" text (fun d a => { d with repository := a }),
    .of "provider" (record providerForm) (fun w a => { w with provider := a }),
    documentField "config" fieldOverrides (fun d a => { d with config := a }),
    documentField "resources" (Json.Reader.map (record resourceForm)) (fun d a => { d with resources := a }),
    documentField "dataSources" (Json.Reader.map (record dataSourceForm))
      (fun d a => { d with dataSources := a }),
    documentField "javascript" (record typeScriptForm) (fun d a => { d with typeScript := a }),
    documentField "python" (record pythonForm) (fun d a => { d with python := a }),
    documentField "dotnet" (record cSharpForm) (fun d a => { d with cSharp := a }),
    documentField "golang" (record goForm) (fun d a => { d with go := a }),
    documentField "provenance" (Json.Reader.option (record provenanceForm))
      (fun d a => { d with provenance := a })]

end Reading

/-- The document as a text writes it, before the provider schema has been checked. -/
def WireDocument.parse (text : String) : Except Json.ReadError WireDocument :=
  Json.Reader.run (record Reading.documentForm) text .stepwise

def WireDocument.check (w : WireDocument) : Except WireError Document := do
  let provider ← w.provider.check
  pure { w.document with provider := provider }

def Document.load (source : SourceText) : Except LoadError Document :=
  match WireDocument.parse source.text with
  | .error e => .error (.json source e)
  | .ok w =>
    match w.check with
    | .error e => .error (.malformedSchema source e.path e.fault.reason)
    | .ok d => .ok d

/-- What a value that a program hands over says, read by the same rules as a text. -/
def Json.readAs {α : Type} (read : Reader α) (value : Json) : Except Json.ReadError α :=
  Json.Reader.run read value.render .nearest

end ProviderSdk
