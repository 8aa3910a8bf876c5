import ProviderSdk.Compile.Run
import ProviderSdk.Proofs.Compile.Positions
import ProviderSdk.Proofs.Json.Members

/-!
# Documentation of properties

What a property says about itself. A field of an item is documented by the page of the item and by
the pages that the item borrows from, what they say about arguments before what they say about
attributes; a field of an object, and a field about which no page says anything, by the schema. A
note that a field is deprecated comes last.
-/

namespace ProviderSdk

/-- Entries that are completed say what they said, and else what the others say. -/
theorem DocPage.lookup_completed (entries others : List (String × String)) (key : String) :
    (DocPage.completed entries others).lookup key = (entries.lookup key).or (others.lookup key) := by
  induction others generalizing entries with
  | nil => simp [DocPage.completed]
  | cons other rest ih =>
    obtain ⟨k, v⟩ := other
    have hstep : (if (entries.lookup k).isSome then entries else Json.insertMember k v entries).lookup key =
        (entries.lookup key).or (if key = k then some v else none) := by
      by_cases hkey : key = k
      · subst hkey
        cases hknown : entries.lookup key <;> simp [hknown, Json.lookup_insertMember]
      · rw [if_neg hkey, Option.or_none]
        split
        · rfl
        · rw [Json.lookup_insertMember, if_neg hkey]
    rw [DocPage.completed, List.foldl_cons, ← DocPage.completed, ih, hstep,
      Json.lookup_cons_ite, Option.or_assoc]
    split <;> simp

namespace ResolveContext

variable (c : ResolveContext) (kind : DocKind)

def page? (stem : String) : Option DocPage := c.docs.bind (fun library => (library kind stem).page)

def borrowedPage? (rawName : Option String) : Option DocPage :=
  rawName.bind (fun name => c.page? kind (c.docStem name))

def ownPage? (item : PairedItem) : Option DocPage :=
  c.page? kind (item.docs.source.getD (c.docStem item.rawName))

/-- What pages say about a field of an item: if the item has a page, its arguments, those of the
page from which it borrows arguments, its attributes and those of the page from which it borrows
attributes, in this order. -/
def fieldText? (item : PairedItem) (key : String) : Option String :=
  (c.ownPage? kind item).bind (fun own =>
    [own.arguments.lookup key,
      (c.borrowedPage? kind item.docs.includeArgumentsFrom).bind (fun page => page.arguments.lookup key),
      own.attributes.lookup key,
      (c.borrowedPage? kind item.docs.includeAttributesFrom).bind
        (fun page => page.attributes.lookup key)].findSome? id)

theorem lookUp_fst (library : DocLibrary) (stem : String) :
    (lookUp library kind stem).1 = (library kind stem).page := rfl

variable {c kind} in
theorem borrow_fst {library : DocLibrary} (hdocs : c.docs = some library) (page : DocPage)
    (rawName : Option String) (arguments attributes : Bool) :
    (c.borrow library kind page rawName arguments attributes).1 =
      (c.borrowedPage? kind rawName).elim page (fun other => page.merge other arguments attributes) := by
  cases rawName with
  | none => rfl
  | some rawName =>
    rw [borrow, borrowedPage?, Option.bind_some, page?, hdocs, Option.bind_some, ← lookUp_fst]
    generalize lookUp library kind (c.docStem rawName) = found
    obtain ⟨_ | other, diagnostics⟩ := found <;> rfl

/-- The page of an item is completed by the arguments of one page and the attributes of another,
whether or not these are the same. -/
theorem itemPage_fst (item : PairedItem) :
    (c.itemPage kind item).1 = (c.ownPage? kind item).map (fun own => { own with
    arguments := DocPage.completed own.arguments
      ((c.borrowedPage? kind item.docs.includeArgumentsFrom).elim [] (fun page => page.arguments))
    attributes := DocPage.completed own.attributes
      ((c.borrowedPage? kind item.docs.includeAttributesFrom).elim [] (fun page => page.attributes)) }) := by
  cases hdocs : c.docs with
  | none => simp [itemPage, ownPage?, page?, hdocs]
  | some library =>
    simp only [itemPage, hdocs]
    rw [ownPage?, page?, hdocs, Option.bind_some, ← lookUp_fst]
    generalize lookUp library kind (item.docs.source.getD (c.docStem item.rawName)) = found
    obtain ⟨_ | own, diagnostics⟩ := found
    · rfl
    · dsimp only
      split
      · next hone =>
        -- Arguments and attributes are borrowed at once, from one page.
        have hsame := eq_of_beq (Bool.and_eq_true_iff.mp hone).2
        rw [Option.map_some, borrow_fst hdocs, ← hsame]
        cases c.borrowedPage? kind item.docs.includeArgumentsFrom <;> rfl
      · rw [Option.map_some, borrow_fst hdocs, borrow_fst hdocs]
        cases c.borrowedPage? kind item.docs.includeArgumentsFrom <;>
          cases c.borrowedPage? kind item.docs.includeAttributesFrom <;> rfl

/-- What the page of an item says about a field, when it is completed. -/
theorem field?_itemPage (item : PairedItem) (key : String) :
    (c.itemPage kind item).1.bind (fun page => page.field? key) = c.fieldText? kind item key := by
  have hlookup (borrowed : Option DocPage) (entries : DocPage → List (String × String)) :
      (borrowed.elim [] entries).lookup key = borrowed.bind (fun page => (entries page).lookup key) := by
    cases borrowed <;> rfl
  rw [itemPage_fst, fieldText?, Option.bind_map]
  congr 1
  funext own
  simp only [Function.comp_apply, DocPage.field?, DocPage.lookup_completed, hlookup, Option.or_assoc]
  generalize own.arguments.lookup key = first
  generalize Option.bind _ _ = second
  generalize own.attributes.lookup key = third
  generalize Option.bind _ _ = fourth
  cases first <;> cases second <;> cases third <;> cases fourth <;> rfl

end ResolveContext

def TypeRef.heldProperties : TypeRef → List Property
  | .array element => element.heldProperties
  | .map element => element.heldProperties
  | .object o => o.properties
  | _ => []

def PairedField.fieldsAt (f : PairedField) (position : Position) : List PairedField :=
  f.heldFields.filter (fun g => decide (position = .output ∨ g.schema.isInput = true))

/-- A property is documented by a text about its field; behind it stands that the field is
deprecated, if it is. -/
structure Property.HasDoc (text : String) (f : PairedField) (p : Property) : Prop where
  rawName : p.rawName = f.key
  current : f.schema.traits.deprecated = none → p.doc = text
  deprecated : ∀ message, f.schema.traits.deprecated = some message →
    p.doc = (if text = "" then "" else Text.trimEnd text ++ "\n\n") ++ "Deprecated: " ++ message

/-- A property has the text that is given for its field, or else that of the schema. The properties
of the object that it holds, if it holds one, have that of the schema. -/
inductive Property.Documented (position : Position) :
    (text? : Option String) → PairedField → Property → Prop where
  | plain {text? f p} (doc : p.HasDoc (text?.getD f.schema.traits.description) f)
    (nothing : p.type.heldProperties = []) :
      Property.Documented position text? f p
  | object {text? f p} (doc : p.HasDoc (text?.getD f.schema.traits.description) f)
      (nested : List.Forall₂ (Property.Documented position none) (f.fieldsAt position)
        p.type.heldProperties) :
      Property.Documented position text? f p

def TypeRef.NestedDocumented (position : Position) (f : PairedField) (type : TypeRef) : Prop :=
  type.heldProperties = [] ∨ List.Forall₂ (Property.Documented position none) (f.fieldsAt position)
    type.heldProperties

variable {package owner : String} {position : Position}

theorem hasDoc_propertyOf (f : PairedField) (type : TypeRef) (position : Position) (page : Option DocPage) :
    (propertyOf f.key f.schema f.override type position page).HasDoc
      ((page.bind (fun page => page.field? f.key)).getD f.schema.traits.description) f where
  rawName := rfl
  current := by
    intro hnone
    rw [propertyOf, hnone, Text.withDeprecation]
  deprecated := by
    intro message hsome
    rw [propertyOf, hsome, Text.withDeprecation]
    split
    · rw [String.empty_append]
    · simp only [String.append_assoc]
      rfl

theorem documented_propertyOf {f : PairedField} {type : TypeRef} (h : type.NestedDocumented position f)
    (page : Option DocPage) : Property.Documented position (page.bind (fun page => page.field? f.key)) f
      (propertyOf f.key f.schema f.override type position page) := by
  rcases h with h | h
  · exact .plain (hasDoc_propertyOf f type position page) h
  · exact .object (hasDoc_propertyOf f type position page) h

theorem documented_resolveProperties_of {page : Option DocPage} {fields : List PairedField}
    {properties : List Property}
    (hnested : ∀ f ∈ fields, ∀ type, typeOf package owner position f = .ok type →
      type.NestedDocumented position f)
    (h : resolveProperties package owner position page fields = .ok properties) :
    List.Forall₂ (fun f p => Property.Documented position (page.bind (fun page => page.field? f.key)) f p)
      fields properties := by
  replace h := forall₂_of_mapM_eq_ok h
  induction h with
  | nil => exact .nil
  | cons hfirst _ ih =>
    obtain ⟨hheld, hrest⟩ := List.forall_mem_cons.mp hnested
    obtain ⟨type, htype, hfirst⟩ := bind_eq_ok.mp hfirst
    cases hfirst
    exact .cons (documented_propertyOf (hheld type htype) page) (ih hrest)

theorem heldProperties_overriddenType? {override : Option FieldOverride} {type : TypeRef}
    (h : overriddenType? package override position = some (.ok type)) : type.heldProperties = [] := by
  unfold overriddenType? at h
  cases htype : override.bind (fun o => o.type) with
  | some text =>
    rw [htype] at h
    obtain ⟨token, _, h⟩ := bind_eq_ok.mp (Option.some.inj h)
    cases position with
    | input =>
      obtain ⟨altTypes, _, h⟩ := bind_eq_ok.mp h
      cases h
      rfl
    | output =>
      cases h
      rfl
  | none =>
    rw [htype] at h
    cases hasset : override.bind (fun o => o.asset) with
    | some asset =>
      rw [hasset] at h
      cases h
      rfl
    | none =>
      rw [hasset] at h
      cases h

theorem nestedDocumented_typeOf_of_element {key : String} {schema : FieldSchema}
    {override : Option FieldOverride} {element : Option PairedElement} {type : TypeRef}
    (h : ∀ e, element = some e → ∀ inner, elementType package owner position key e = .ok inner →
      inner.NestedDocumented position ⟨key, schema, override, element⟩)
    (htype : typeOf package owner position ⟨key, schema, override, element⟩ = .ok type) :
    type.NestedDocumented position ⟨key, schema, override, element⟩ := by
  rw [typeOf] at htype
  split at htype
  · next hsaid =>
    rw [htype] at hsaid
    exact .inl (heldProperties_overriddenType? hsaid)
  · split at htype
    · next kind _ =>
      cases htype
      cases kind <;> exact .inl rfl
    · next kind _ =>
      cases element with
      | none => cases htype
      | some e =>
        obtain ⟨inner, hinner, htype⟩ := bind_eq_ok.mp htype
        have hnested := h e rfl inner hinner
        cases kind with
        | map =>
          cases htype
          exact hnested
        | _ =>
          cases htype
          split <;> exact hnested

theorem nestedDocumented_typeOf {f : PairedField} {type : TypeRef}
    (h : typeOf package owner position f = .ok type) :
    type.NestedDocumented position f := by
  induction f using PairedField.nestedInduction generalizing owner type with
  | bare key schema override =>
    refine nestedDocumented_typeOf_of_element (fun e he => ?_) h
    cases he
  | field key schema override f ih =>
    refine nestedDocumented_typeOf_of_element (fun e he inner hinner => ?_) h
    cases he
    rw [elementType] at hinner
    exact ih hinner
  | object key schema override fields ih =>
    refine nestedDocumented_typeOf_of_element (fun e he inner hinner => ?_) h
    cases he
    rw [elementType] at hinner
    obtain ⟨properties, hproperties, hinner⟩ := bind_eq_ok.mp hinner
    cases hinner
    rw [nestedProperties_eq] at hproperties
    exact .inr (documented_resolveProperties_of (fun f hf _ => ih f (List.mem_filter.mp hf).1) hproperties)

namespace ResolveContext

/-- The properties of fields of an item are documented by what pages say about the fields, and else
by the schema. -/
def Documented (c : ResolveContext) (kind : DocKind) (item : PairedItem) (position : Position)
    (fields : List PairedField) (properties : List Property) : Prop :=
  List.Forall₂ (fun f p => Property.Documented position (c.fieldText? kind item f.key) f p) fields properties

theorem documented_resolveProperties {c : ResolveContext} {kind : DocKind} {item : PairedItem}
    {fields : List PairedField} {properties : List Property}
    (h : resolveProperties package owner position (c.itemPage kind item).1 fields = .ok properties) :
    c.Documented kind item position fields properties := by
  have hdocumented := documented_resolveProperties_of (fun _ _ _ => nestedDocumented_typeOf) h
  simp only [field?_itemPage] at hdocumented
  exact hdocumented

variable {c : ResolveContext} {item : PairedItem}

theorem documented_resource {r : Resource} (h : (c.resource item).1 = .ok r) :
    c.Documented .resource item .input (item.fields.filter (fun f => f.schema.isInput)) r.inputs ∧
      c.Documented .resource item .output item.fields r.outputs := by
  unfold resource at h
  split at h
  · cases h
  · obtain ⟨inputs, hinputs, h⟩ := bind_eq_ok.mp h
    obtain ⟨outputs, houtputs, h⟩ := bind_eq_ok.mp h
    cases h
    exact ⟨documented_resolveProperties hinputs, documented_resolveProperties houtputs⟩

theorem documented_dataSource {f : DataSource} (h : (c.dataSource item).1 = .ok f) :
    c.Documented .dataSource item .input (item.fields.filter (fun f => f.schema.isInput)) f.arguments ∧
      c.Documented .dataSource item .output (item.fields.filter (fun f => f.schema.traits.computed))
        f.results := by
  unfold dataSource at h
  split at h
  · cases h
  · obtain ⟨arguments, harguments, h⟩ := bind_eq_ok.mp h
    obtain ⟨results, hresults, h⟩ := bind_eq_ok.mp h
    cases h
    exact ⟨documented_resolveProperties harguments, documented_resolveProperties hresults⟩

end ResolveContext

def PairedItem.borrowing (item : PairedItem) (arguments attributes : Option String) : PairedItem :=
  { item with docs :=
    { item.docs with includeArgumentsFrom := arguments, includeAttributesFrom := attributes } }

namespace ResolveContext

/-- Only the pages that are borrowed from matter, not the names by which they are found. -/
theorem itemPage_borrowing {c : ResolveContext} {a b : String} (h : c.docStem a = c.docStem b)
    (kind : DocKind) (item : PairedItem) : (c.itemPage kind (item.borrowing (some a) (some b))).1 =
      (c.itemPage kind (item.borrowing (some a) (some a))).1 := by
  have hpage : c.borrowedPage? kind (some b) = c.borrowedPage? kind (some a) := by
    rw [borrowedPage?, borrowedPage?, Option.bind_some, Option.bind_some, h]
  rw [itemPage_fst, itemPage_fst]
  simp only [PairedItem.borrowing, ownPage?, hpage]

theorem resource_borrowing {c : ResolveContext} {a b : String} (h : c.docStem a = c.docStem b)
    (item : PairedItem) :
    (c.resource (item.borrowing (some a) (some b))).1 =
      (c.resource (item.borrowing (some a) (some a))).1 := by
  have htoken : c.itemToken (item.borrowing (some a) (some b)) =
      c.itemToken (item.borrowing (some a) (some a)) := rfl
  simp only [resource, htoken]
  split
  · rfl
  · simp only [itemPage_borrowing h]
    rfl

theorem dataSource_borrowing {c : ResolveContext} {a b : String} (h : c.docStem a = c.docStem b)
    (item : PairedItem) :
    (c.dataSource (item.borrowing (some a) (some b))).1 =
      (c.dataSource (item.borrowing (some a) (some a))).1 := by
  have htoken : c.itemToken (item.borrowing (some a) (some b)) =
      c.itemToken (item.borrowing (some a) (some a)) := rfl
  simp only [dataSource, htoken]
  split
  · rfl
  · simp only [itemPage_borrowing h]
    rfl

/-- The properties of a resource and of a data source have the first text that there is for their
field: what the item's own page says about arguments, then what is borrowed about arguments, then
what the item's own page says about attributes, then what is borrowed about attributes, and last
what the schema says, which stands alone if the item has no page of its own and always in objects.
That a field is deprecated is said at the end. Borrowing all from one page comes to the same as
looking the page up twice, under two names. -/
theorem documentation_precedence (c : ResolveContext) (item : PairedItem) :
    (∀ r, (c.resource item).1 = .ok r →
      c.Documented .resource item .input (item.fields.filter (fun f => f.schema.isInput)) r.inputs ∧
        c.Documented .resource item .output item.fields r.outputs) ∧
    (∀ f, (c.dataSource item).1 = .ok f →
      c.Documented .dataSource item .input (item.fields.filter (fun f => f.schema.isInput)) f.arguments ∧
        c.Documented .dataSource item .output (item.fields.filter (fun f => f.schema.traits.computed))
          f.results) ∧
    ∀ a b, c.docStem a = c.docStem b →
      (c.resource (item.borrowing (some a) (some b))).1 = (c.resource (item.borrowing (some a) (some a))).1 ∧
        (c.dataSource (item.borrowing (some a) (some b))).1 =
          (c.dataSource (item.borrowing (some a) (some a))).1 :=
  ⟨fun _ => documented_resource, fun _ => documented_dataSource,
    fun _ _ h => ⟨resource_borrowing h item, dataSource_borrowing h item⟩⟩

def serverPages : DocLibrary := fun _ stem =>
  if stem = "server" then
    { page := some { arguments := [("image", "Own argument.")], attributes :=
      [("image", "Own."), ("size", "Own."), ("zone", "Own attribute.")] } }
  else if stem = "host" then
    { page := some { arguments := [("image", "Host argument."), ("size", "Host argument.")] } }
  else if stem = "disk" then
    { page := some { arguments := [("label", "Disk argument.")], attributes := [("disks", "Disk attribute."),
        ("label", "Disk attribute."), ("zone", "Disk attribute.")] } }
  else {}

/-- A server, about some of whose fields pages say something. -/
def serverItem : PairedItem where
  rawName := "acme_server"
  token := ""
  docs := { includeArgumentsFrom := some "acme_host", includeAttributesFrom := some "acme_disk" }
  deleteBeforeReplace := false
  fields := [
    pairField "disks" none (.collection .list (.object [
      ("label", .scalar .string { optional := true, description := "Nested." })])
      { optional := true, description := "Schema.", deprecated := some "Gone." }),
    pairField "image" none (.scalar .string { optional := true, description := "Schema." }),
    pairField "size" none (.scalar .int { optional := true, description := "Schema." }),
    pairField "tier" none (.scalar .int { computed := true, description := "Schema." }),
    pairField "zone" none (.scalar .string { optional := true, description := "Schema." })]

def serverContext : ResolveContext := ⟨"acme", "acme_", some serverPages⟩

theorem serverItem_documentation :
    serverContext.docStem "acme_host" = serverContext.docStem "host" ∧
      ∃ r, (serverContext.resource serverItem).1 = .ok r ∧
      r.outputs.map (fun p => p.doc) = ["Disk attribute.\n\nDeprecated: Gone.", "Own argument.",
        "Host argument.", "Schema.", "Own attribute."] ∧
      serverContext.Documented .resource serverItem .input
        (serverItem.fields.filter (fun f => f.schema.isInput))
        r.inputs ∧
      serverContext.Documented .resource serverItem .output serverItem.fields r.outputs ∧
      (serverContext.resource (serverItem.borrowing (some "acme_host") (some "host"))).1 =
        (serverContext.resource (serverItem.borrowing (some "acme_host") (some "acme_host"))).1 := by
  have hstems : serverContext.docStem "acme_host" = serverContext.docStem "host" := by decide +kernel
  have hdocs : (serverContext.resource serverItem).1.toOption.any (fun r => r.outputs.map (fun p => p.doc) =
      ["Disk attribute.\n\nDeprecated: Gone.", "Own argument.", "Host argument.", "Schema.",
        "Own attribute."]) := by
    decide +kernel
  obtain ⟨r, hr, hdocs⟩ := exists_ok_of_any hdocs
  obtain ⟨hresource, _, htwice⟩ := documentation_precedence serverContext serverItem
  obtain ⟨hinputs, houtputs⟩ := hresource r hr
  exact ⟨hstems, r, hr, of_decide_eq_true hdocs, hinputs, houtputs, (htwice "acme_host" "host" hstems).1⟩

end ResolveContext

namespace DocLibrary

/-- The file of a page in a directory: of the two names that it may have, the first that a file has. -/
def pageFile? (disk : Disk) (root : Path) (kind : DocKind) (stem : String) : Option Path :=
  [stem ++ ".html.markdown", stem ++ ".markdown"].map (root.child kind.directory).child |>.find? disk.isFile

def storedPage? (disk : Disk) (root : Path) (kind : DocKind) (stem : String) : Option DocPage :=
  (pageFile? disk root kind stem).bind (fun file => (disk.readText file).toOption.map DocPage.parse)

theorem page_readPage (disk : Disk) (file : Path) (warning : Option String) :
    (readPage disk file warning).page = (disk.readText file).toOption.map DocPage.parse := by
  unfold readPage
  cases disk.readText file <;> rfl

/-- The page of a stem is what the first file says that has a name for it. -/
theorem page_ofDirectory (disk : Disk) (root : Path) (kind : DocKind) (stem : String) :
    (ofDirectory disk root kind stem).page = storedPage? disk root kind stem := by
  let first := (root.child kind.directory).child (stem ++ ".html.markdown")
  let second := (root.child kind.directory).child (stem ++ ".markdown")
  change DocLookup.page (if disk.isFile first then
      (if disk.isFile second then readPage disk first _ else readPage disk first none)
    else if disk.isFile second then readPage disk second none else {}) =
      ([first, second].find? disk.isFile).bind (fun file => (disk.readText file).toOption.map DocPage.parse)
  by_cases hfirst : disk.isFile first
  · rw [if_pos hfirst, List.find?_cons_of_pos hfirst, Option.bind_some]
    split <;> exact page_readPage disk first _
  · rw [if_neg hfirst, List.find?_cons_of_neg hfirst]
    by_cases hsecond : disk.isFile second
    · rw [if_pos hsecond, List.find?_cons_of_pos hsecond, Option.bind_some]
      exact page_readPage disk second none
    · rw [if_neg hsecond, List.find?_cons_of_neg hsecond]
      rfl

/-- What the pages of a directory say about a field of an item with a page of its own, which borrows
from others. -/
def fieldText? (disk : Disk) (root : Path) (kind : DocKind) (own : String)
    (arguments attributes : Option String) (key : String) : Option String :=
  (storedPage? disk root kind own).bind (fun page =>
    [page.arguments.lookup key,
      (arguments.bind (storedPage? disk root kind)).bind (fun borrowed => borrowed.arguments.lookup key),
      page.attributes.lookup key,
      (attributes.bind (storedPage? disk root kind)).bind (fun borrowed =>
        borrowed.attributes.lookup key)].findSome? id)

end DocLibrary

namespace ResolveContext

theorem fieldText?_ofDirectory {c : ResolveContext} {disk : Disk} {root : Path}
    (hdocs : c.docs = some (DocLibrary.ofDirectory disk root)) (kind : DocKind) (item : PairedItem)
    (key : String) :
    c.fieldText? kind item key =
      DocLibrary.fieldText? disk root kind (item.docs.source.getD (c.docStem item.rawName))
        (item.docs.includeArgumentsFrom.map c.docStem)
        (item.docs.includeAttributesFrom.map c.docStem) key := by
  have hpage (stem : String) : c.page? kind stem = DocLibrary.storedPage? disk root kind stem := by
    rw [page?, hdocs, Option.bind_some, DocLibrary.page_ofDirectory]
  have hborrowed (rawName : Option String) :
      c.borrowedPage? kind rawName = (rawName.map c.docStem).bind
        (DocLibrary.storedPage? disk root kind) := by
    cases rawName with
    | none => rfl
    | some name => rw [borrowedPage?, Option.bind_some, hpage, Option.map_some, Option.bind_some]
  rw [fieldText?, ownPage?, hpage, hborrowed, hborrowed]
  rfl

/-- In a run with a directory of pages, the properties of an item have the texts that its files say. -/
theorem documented_ofDirectory (disk : Disk) (document : Document) {options : RunOptions} {root : Path}
    (hdocs : options.docsDirectory = some root) {c : ResolveContext}
    (hc : (Compilation.start document options).resolveContext disk = c) (item : PairedItem) :
    (∀ r, (c.resource item).1 = .ok r →
      c.Documented .resource item .input (item.fields.filter (fun f => f.schema.isInput)) r.inputs ∧
        c.Documented .resource item .output item.fields r.outputs) ∧
    (∀ f, (c.dataSource item).1 = .ok f →
      c.Documented .dataSource item .input (item.fields.filter (fun f => f.schema.isInput)) f.arguments ∧
        c.Documented .dataSource item .output (item.fields.filter (fun f => f.schema.traits.computed))
          f.results) ∧
    ∀ kind key, c.fieldText? kind item key =
      DocLibrary.fieldText? disk root kind (item.docs.source.getD (c.docStem item.rawName))
        (item.docs.includeArgumentsFrom.map c.docStem)
        (item.docs.includeAttributesFrom.map c.docStem) key := by
  have hlibrary : c.docs = some (DocLibrary.ofDirectory disk root) := by
    rw [← hc]
    exact congrArg (Option.map (DocLibrary.ofDirectory disk)) hdocs
  exact ⟨fun _ => documented_resource, fun _ => documented_dataSource,
    fun kind key => fieldText?_ofDirectory hlibrary kind item key⟩

end ResolveContext

end ProviderSdk
