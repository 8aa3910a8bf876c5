import ProviderSdk.Compile.Diagnostic
import ProviderSdk.Compile.Pairing
import ProviderSdk.Docs.Page
import ProviderSdk.Package.Member
import ProviderSdk.Text.Words
import ProviderSdk.Text.Prose
import ProviderSdk.Values.Default

/-!
# Resolving items

Paired fields become properties: names, types, documentation, defaults and the question which
properties may be left out are decided here, once for all languages. An item that cannot be resolved
is left out, with an error that names the first cause.
-/

namespace ProviderSdk

inductive ResolveError where
  | missingPrefix (text : String)
  | token (cause : TokenError)
  | foreignType (type package : String)
  | elementMissing (key : String)
  deriving DecidableEq, Repr

namespace ResolveError

/-- What is said about an item that cannot be resolved. -/
def message : ResolveError → String
  | missingPrefix text => s!"name does not start with the provider prefix '{text}'"
  | token cause => cause.message
  | foreignType type package => s!"custom schema type {type} was not in the current package {package}"
  | elementMissing key => s!"internal error: collection field '{key}' has no element schema"

/-- Whether the error is none of the item's, so that the whole run fails. -/
def isFatal : ResolveError → Bool
  | elementMissing _ => true
  | _ => false

end ResolveError

def resolveToken (text : String) : Except ResolveError Token :=
  match Token.parse text with
  | .ok t => .ok t
  | .error e => .error (.token e)

def localToken (package text : String) : Except ResolveError Token := do
  let t ← resolveToken text
  if t.package = package then pure t else throw (.foreignType text package)

/-- Whether a collection is treated as its only element: the override decides, and else the limit of
the schema. -/
def isSingleItem (schema : FieldSchema) (override : Option FieldOverride) : Bool :=
  (override.bind (fun o => o.maxItemsOne)).getD (schema.traits.maxItems == 1)

def literalOf? : Json → Option Literal
  | .bool b => some (.bool b)
  | .num (.int n) =>
    if int64Min ≤ n ∧ n ≤ int64Max then some (.int n) else some (.float (Decimal.Binary64.ofInt n))
  | .num (.float x) => some (.float x)
  | .str s => some (.string s)
  | _ => none

def DefaultOverride.toDefaultValue (d : DefaultOverride) (kind : ValueKind) : DefaultValue where
  literal := d.value.bind (fun v => literalOf? (coerceNumber kind v))
  envVars := d.envVars
  computed := d.compute.isSome

/-- Whether a property may be left out: inputs that the schema lets be left out, that the provider
computes, or that have a default; outputs that may stay empty. -/
def isOptional (schema : FieldSchema) (hasDefault : Bool) : Position → Bool
  | .input => schema.traits.optional || schema.traits.computed || hasDefault
  | .output => schema.traits.optional && !schema.traits.computed && !hasDefault

/-- The property of a field whose type is known, documented by a page if it has something to say. -/
def propertyOf (key : String) (schema : FieldSchema) (override : Option FieldOverride) (type : TypeRef)
    (position : Position) (page : Option DocPage) : Property where
  rawName := key
  name := propertyName key override
  type := type
  optional := isOptional schema ((override.bind (fun o => o.default)).isSome) position
  doc := Text.withDeprecation ((page.bind (fun p => p.field? key)).getD schema.traits.description)
    schema.traits.deprecated
  description := schema.traits.description
  default := (override.bind (fun o => o.default)).map (fun d => d.toDefaultValue schema.kind)
  deprecation := schema.traits.deprecated
  secret := schema.traits.sensitive
  position := position

/-- The name of an object type: that of the owner and the key, with a mark for inputs between. -/
def objectTypeName (owner key : String) (position : Position) : String :=
  let suffix := Text.pascalCase (Text.singular key)
  if position = .input ∧ owner ≠ "" then owner ++ "Args" ++ suffix else owner ++ suffix

def overriddenType? (package : String) (override : Option FieldOverride) (position : Position) :
    Option (Except ResolveError TypeRef) :=
  match override.bind (fun o => o.type) with
  | some text => some (do
      let token ← localToken package text
      let altTypes ← match position with
        | .input => ((override.map (fun o => o.altTypes)).getD []).mapM (localToken package)
        | .output => pure []
      pure (.custom ⟨token, altTypes⟩))
  | none =>
    match override.bind (fun o => o.asset) with
    | some asset => some (.ok (.asset (if asset.isArchive then .archive else .asset)))
    | none => none

def scalarType : ScalarKind → TypeRef
  | .bool => .bool
  | .int => .int
  | .float => .float
  | .string => .string

mutual

def typeOf (package owner : String) (position : Position) : PairedField → Except ResolveError TypeRef
  | ⟨key, schema, override, element⟩ =>
    match overriddenType? package override position with
    | some type => type
    | none =>
      match schema.kind with
      | .scalar kind => .ok (scalarType kind)
      | .collection kind =>
        match element with
        | none => .error (.elementMissing key)
        | some e => do
          let type ← elementType package owner position key e
          match kind with
          | .map => pure (.map type)
          | _ => pure (if isSingleItem schema override then type else .array type)
  termination_by structural f => f

/-- The type of the element of a field; object types are named after the field. -/
def elementType (package owner : String) (position : Position) (key : String) :
    PairedElement → Except ResolveError TypeRef
  | .field f => typeOf package owner position f
  | .object fields => do
    let inner := owner ++ Text.pascalCase (Text.singular key)
    let properties ← nestedProperties package inner position fields
    pure (.object ⟨objectTypeName owner key position, properties⟩)
  termination_by structural e => e

/-- The properties of an object type. Types of inputs have the fields that a user may set. -/
def nestedProperties (package owner : String) (position : Position) :
    List PairedField → Except ResolveError (List Property)
  | [] => .ok []
  | f :: rest =>
    if position = .output ∨ f.schema.isInput then do
      let type ← typeOf package owner position f
      let rest ← nestedProperties package owner position rest
      pure (propertyOf f.key f.schema f.override type position none :: rest)
    else nestedProperties package owner position rest
  termination_by structural fields => fields

end

def resolveProperty (package owner : String) (position : Position) (page : Option DocPage) (f : PairedField) :
    Except ResolveError Property := do
  let type ← typeOf package owner position f
  pure (propertyOf f.key f.schema f.override type position page)

def resolveProperties (package owner : String) (position : Position) (page : Option DocPage)
    (fields : List PairedField) : Except ResolveError (List Property) :=
  fields.mapM (resolveProperty package owner position page)

structure ResolveContext where
  package : String
  itemPrefix : String
  docs : Option DocLibrary

structure ResolvedProvider where
  config : List Property := []
  resources : List Resource := []
  dataSources : List DataSource := []
  deriving Inhabited

namespace ResolveContext

/-- The raw name without what all raw names start with. -/
def stem? (c : ResolveContext) (rawName : String) : Option String := Text.dropStart? c.itemPrefix rawName

def docStem (c : ResolveContext) (rawName : String) : String := (c.stem? rawName).getD rawName

/-- The token of an item: the one that is said, or one in the root module with the item's own name. -/
def itemToken (c : ResolveContext) (item : PairedItem) (named : String → String) :
    Except ResolveError Token :=
  if item.token ≠ "" then resolveToken item.token
  else match c.stem? item.rawName with
    | some stem => .ok (Token.of c.package rootModule (named stem))
    | none => .error (.missingPrefix c.itemPrefix)

def lookUp (library : DocLibrary) (kind : DocKind) (stem : String) : Option DocPage × List Diagnostic :=
  let found := library kind stem
  (found.page, found.warning.toList.map (fun w => (Diagnostic.warning "resolve" w).about stem))

def borrow (c : ResolveContext) (library : DocLibrary) (kind : DocKind) (page : DocPage)
    (rawName : Option String) (arguments attributes : Bool) : DocPage × List Diagnostic :=
  match rawName with
  | none => (page, [])
  | some rawName =>
    match lookUp library kind (c.docStem rawName) with
    | (some other, diagnostics) => (page.merge other arguments attributes, diagnostics)
    | (none, diagnostics) => (page, diagnostics)

/-- The page of an item with what it borrows from others. Where there is no page nothing is borrowed. -/
def itemPage (c : ResolveContext) (kind : DocKind) (item : PairedItem) : Option DocPage × List Diagnostic :=
  match c.docs with
  | none => (none, [])
  | some library =>
    match lookUp library kind (item.docs.source.getD (c.docStem item.rawName)) with
    | (none, diagnostics) => (none, diagnostics)
    | (some page, diagnostics) =>
      let fromArguments := item.docs.includeArgumentsFrom
      let fromAttributes := item.docs.includeAttributesFrom
      if fromArguments.isSome && fromArguments == fromAttributes then
        let (page, more) := c.borrow library kind page fromArguments true true
        (some page, diagnostics ++ more)
      else
        let (page, more) := c.borrow library kind page fromArguments true false
        let (page, yetMore) := c.borrow library kind page fromAttributes false true
        (some page, diagnostics ++ more ++ yetMore)

def fileStem (token : Token) : String := token.fileStem.getD (Text.lowerFirst token.name)

def resource (c : ResolveContext) (item : PairedItem) : Except ResolveError Resource × List Diagnostic :=
  match c.itemToken item Text.pascalCase with
  | .error e => (.error e, [])
  | .ok token =>
    let (page, diagnostics) := c.itemPage .resource item
    (do
      let inputs ← resolveProperties c.package token.name .input page
        (item.fields.filter (fun f => f.schema.isInput))
      let outputs ← resolveProperties c.package token.name .output page item.fields
      pure {
        token := token
        name := token.name
        rawName := item.rawName
        fileStem := fileStem token
        doc := (page.map (fun p => p.description)).getD ""
        inputs := inputs
        outputs := outputs
        isProvider := false
        deleteBeforeReplace := item.deleteBeforeReplace }, diagnostics)

def dataSource (c : ResolveContext) (item : PairedItem) : Except ResolveError DataSource × List Diagnostic :=
  match c.itemToken item Text.camelCase with
  | .error e => (.error e, [])
  | .ok token =>
    let (page, diagnostics) := c.itemPage .dataSource item
    let owner := Text.upperFirst token.name
    (do
      let arguments ← resolveProperties c.package owner .input page
        (item.fields.filter (fun f => f.schema.isInput))
      let results ← resolveProperties c.package owner .output page
        (item.fields.filter (fun f => f.schema.traits.computed))
      pure {
        token := token
        name := token.name
        rawName := item.rawName
        fileStem := fileStem token
        doc := (page.map (fun p => p.description)).getD ""
        arguments := arguments
        results := results }, diagnostics)

/-- What the provider resource of a package says about itself. -/
def providerDoc (package : String) : String :=
  "The provider type for the " ++ package ++ " package. By default, resources use package-wide " ++
  "configuration settings, however an explicit `Provider` instance may be created " ++
  "and passed during resource construction to achieve fine-grained programmatic " ++
  "control over provider settings."

def providerResource (c : ResolveContext) (config : List PairedField) : Except ResolveError Resource := do
  let inputs ← resolveProperties c.package "Provider" .input none config
  pure {
    token := Token.provider c.package
    name := "Provider"
    rawName := c.package
    fileStem := "provider"
    doc := providerDoc c.package
    inputs := inputs
    outputs := []
    isProvider := true
    deleteBeforeReplace := false }

end ResolveContext

/-- The values that could be had, and the errors of the others with the items that they are about. -/
def partitionResults {α : Type} (results : List (String × Except ResolveError α)) :
    List α × List (String × ResolveError) :=
  results.foldr (fun (item, result) (values, errors) =>
    match result with
    | .ok a => (a :: values, errors)
    | .error e => (values, (item, e) :: errors)) ([], [])

structure Resolution where
  resolved : ResolvedProvider
  diagnostics : List Diagnostic
  failures : List (String × ResolveError)

/-- The configuration, the provider resource, the resources and the data sources of a provider. -/
def PairedProvider.resolve (p : PairedProvider) (c : ResolveContext) : Resolution :=
  let (config, configFailures) :=
    partitionResults [("config", resolveProperties c.package "" .input none p.config)]
  let (provider, providerFailures) :=
    if p.config.isEmpty then ([], []) else partitionResults [("provider", c.providerResource p.config)]
  let resources := p.resources.map (fun item => (item.rawName, c.resource item))
  let dataSources := p.dataSources.map (fun item => (item.rawName, c.dataSource item))
  let (resolvedResources, resourceFailures) := partitionResults (resources.map (fun (n, r) => (n, r.1)))
  let (resolvedDataSources, dataSourceFailures) := partitionResults (dataSources.map (fun (n, r) => (n, r.1)))
  { resolved := {
      config := config.flatten
      resources := provider ++ resolvedResources
      dataSources := resolvedDataSources }
    diagnostics := resources.flatMap (fun (_, r) => r.2) ++ dataSources.flatMap (fun (_, r) => r.2)
    failures := configFailures ++ providerFailures ++ resourceFailures ++ dataSourceFailures }

end ProviderSdk
