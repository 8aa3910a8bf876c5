import Mathlib
import ProviderSdk.Proofs.Schema.Order

/-!
# Nodes of written schemas

The nodes that are reached from the fields of a written schema through the elements of lists, sets
and maps, each before those below it. A document is refused exactly if one of them makes no sense,
with what is said about the first, and what is loaded otherwise has the keys, the kinds, the traits
and the nesting that were written.
-/

namespace ProviderSdk

open Json (Ascending)

inductive WireNode where
  | field (f : WireField)
  | element (e : WireElement)

/-- What makes no sense about a node, whatever is below it. -/
def WireNode.fault? : WireNode → Option WireFault
  | .field ⟨type, _, held⟩ =>
    match ValueKind.ofName? type with
    | some (.scalar _) => none
    | some (.collection _) => if held.isSome then none else some (.noElement type)
    | none => some (.unknownType type)
  | .element ⟨some _, some _⟩ => some .bothElements
  | .element ⟨none, none⟩ => some .neitherElement
  | .element ⟨some _, none⟩ => none
  | .element ⟨none, some _⟩ => none

abbrev PlacedNodes := List (List String × WireNode)

mutual

/-- The nodes of a field, which `keys` lead to. What describes an element counts for collections only. -/
def WireField.nodes (keys : List String) : WireField → PlacedNodes
  | ⟨type, traits, element⟩ =>
    (keys, .field ⟨type, traits, element⟩) ::
      match ValueKind.ofName? type with
      | some (.collection _) =>
        match element with
        | some e => e.nodes (keys ++ ["element"])
        | none => []
      | _ => []
  termination_by structural f => f

def WireElement.nodes (keys : List String) : WireElement → PlacedNodes
  | ⟨schema, resource⟩ =>
    (keys, .element ⟨schema, resource⟩) ::
      ((match schema with
        | some f => f.nodes (keys ++ ["schema"])
        | none => []) ++
      (match resource with
        | some fields => nodesOfFields (keys ++ ["resource"]) fields
        | none => []))
  termination_by structural e => e

def nodesOfFields (keys : List String) : List (String × WireField) → PlacedNodes
  | [] => []
  | (key, f) :: rest => f.nodes (keys ++ [key]) ++ nodesOfFields keys rest
  termination_by structural fields => fields

end

/-- The nodes of the items of a section. -/
def nodesOfItems (keys : List String) (items : List (String × List (String × WireField))) : PlacedNodes :=
  items.flatMap (fun (name, fields) => nodesOfFields (keys ++ [name]) fields)

/-- The nodes of a provider: those of the configuration, then of the resources, then of the data sources. -/
def WireProvider.nodes (p : WireProvider) : PlacedNodes :=
  nodesOfFields ["provider", "schema"] p.schema ++ nodesOfItems ["provider", "resources"] p.resources ++
    nodesOfItems ["provider", "dataSources"] p.dataSources

def dotted (keys : List String) : String := ".".intercalate keys

/-- The error about the first of several nodes that makes no sense. -/
def PlacedNodes.firstError? (nodes : PlacedNodes) : Option WireError :=
  nodes.findSome? (fun (keys, node) => node.fault?.map (fun fault => ⟨dotted keys, fault⟩))

theorem dotted_concat {keys : List String} (hne : keys ≠ []) (key : String) :
    dotted (keys ++ [key]) = dotted keys ++ "." ++ key := by
  rw [dotted, String.intercalate_append_of_ne_nil hne (List.cons_ne_nil key []), String.intercalate_singleton]
  rfl

namespace PlacedNodes

theorem firstError?_append (before after : PlacedNodes) :
    firstError? (before ++ after) = (firstError? before).or (firstError? after) :=
  List.findSome?_append

theorem firstError?_cons_of_none {node : WireNode} (h : node.fault? = none) (keys : List String)
    (rest : PlacedNodes) :
    firstError? ((keys, node) :: rest) = firstError? rest := by
  simp [firstError?, h]

theorem firstError?_eq_some_iff {nodes : PlacedNodes} {e : WireError} :
    nodes.firstError? = some e ↔ ∃ before keys node fault after, nodes = before ++ (keys, node) :: after ∧
      (∀ n ∈ before, n.2.fault? = none) ∧ node.fault? = some fault ∧ e = ⟨dotted keys, fault⟩ := by
  rw [firstError?, List.findSome?_eq_some_iff]
  constructor
  · rintro ⟨before, ⟨keys, node⟩, after, rfl, hfirst, hbefore⟩
    obtain ⟨fault, hfault, rfl⟩ := Option.map_eq_some_iff.mp hfirst
    exact ⟨before, keys, node, fault, after, rfl,
      fun n hn => Option.map_eq_none_iff.mp (hbefore n hn), hfault, rfl⟩
  · rintro ⟨before, keys, node, fault, after, rfl, hbefore, hfault, rfl⟩
    exact ⟨before, (keys, node), after, rfl, by simp [hfault], fun n hn => by simp [hbefore n hn]⟩

theorem exists_firstError?_iff {nodes : PlacedNodes} :
    (∃ e, nodes.firstError? = some e) ↔ ∃ n ∈ nodes, n.2.fault?.isSome := by
  rw [← Option.isSome_iff_exists, firstError?, List.findSome?_isSome_iff]
  simp

end PlacedNodes

open PlacedNodes

mutual

theorem WireField.errorOf?_check {keys : List String} (hne : keys ≠ []) :
    (f : WireField) → errorOf? (f.check (dotted keys)) = firstError? (f.nodes keys)
  | ⟨type, traits, none⟩ => by
    cases hkind : ValueKind.ofName? type with
    | none => simp [WireField.check, WireField.nodes, hkind, firstError?, WireNode.fault?, errorOf?]
    | some kind =>
      cases kind <;> simp [WireField.check, WireField.nodes, hkind, firstError?, WireNode.fault?, errorOf?]
  | ⟨type, traits, some e⟩ => by
    have he := WireElement.errorOf?_check (List.append_ne_nil_of_left_ne_nil hne ["element"]) e
    rw [dotted_concat hne, String.append_assoc] at he
    cases hkind : ValueKind.ofName? type with
    | none => simp [WireField.check, WireField.nodes, hkind, firstError?, WireNode.fault?, errorOf?]
    | some kind =>
      cases kind with
      | scalar => simp [WireField.check, WireField.nodes, hkind, firstError?, WireNode.fault?, errorOf?]
      | collection kind =>
        have hnone : (WireNode.field ⟨type, traits, some e⟩).fault? = none := by simp [WireNode.fault?, hkind]
        simp only [WireField.check, WireField.nodes, hkind]
        rw [firstError?_cons_of_none hnone, ← he]
        exact errorOf?_bind_pure _ _
  termination_by structural f => f

theorem WireElement.errorOf?_check {keys : List String} (hne : keys ≠ []) :
    (e : WireElement) → errorOf? (e.check (dotted keys)) = firstError? (e.nodes keys)
  | ⟨some f, some fields⟩ => by
    simp [WireElement.check, WireElement.nodes, firstError?, WireNode.fault?, errorOf?]
  | ⟨none, none⟩ => by
    simp [WireElement.check, WireElement.nodes, firstError?, WireNode.fault?, errorOf?]
  | ⟨some f, none⟩ => by
    have hf := WireField.errorOf?_check (List.append_ne_nil_of_left_ne_nil hne ["schema"]) f
    rw [dotted_concat hne, String.append_assoc] at hf
    simp only [WireElement.check, WireElement.nodes, List.append_nil]
    rw [firstError?_cons_of_none rfl, ← hf]
    exact errorOf?_bind_pure _ _
  | ⟨none, some fields⟩ => by
    have hfields := errorOf?_checkFields (List.append_ne_nil_of_left_ne_nil hne ["resource"]) fields
    rw [dotted_concat hne, String.append_assoc] at hfields
    simp only [WireElement.check, WireElement.nodes, List.nil_append]
    rw [firstError?_cons_of_none rfl, ← hfields]
    exact errorOf?_bind_pure _ _
  termination_by structural e => e

theorem errorOf?_checkFields {keys : List String} (hne : keys ≠ []) :
    (fields : List (String × WireField)) →
      errorOf? (checkFields (dotted keys) fields) = firstError? (nodesOfFields keys fields)
  | [] => rfl
  | (key, f) :: rest => by
    have hf := WireField.errorOf?_check (List.append_ne_nil_of_left_ne_nil hne [key]) f
    rw [dotted_concat hne] at hf
    have hrest := errorOf?_checkFields hne rest
    rw [checkFields, nodesOfFields, firstError?_append, ← hf, ← hrest]
    exact errorOf?_bind (fun _ => errorOf?_bind_pure _ _)
  termination_by structural fields => fields

end

theorem errorOf?_checkItems {keys : List String} (hne : keys ≠ [])
    (items : List (String × List (String × WireField))) :
    errorOf? (checkItems (dotted keys) items) = firstError? (nodesOfItems keys items) := by
  induction items with
  | nil => rfl
  | cons item rest ih =>
    obtain ⟨name, fields⟩ := item
    have hfields := errorOf?_checkFields (List.append_ne_nil_of_left_ne_nil hne [name]) fields
    rw [dotted_concat hne] at hfields
    rw [nodesOfItems, List.flatMap_cons, firstError?_append, ← nodesOfItems, ← ih, ← hfields,
      checkItems, List.mapM_cons]
    rw [errorOf?_bind (fun _ => errorOf?_bind_pure _ _), errorOf?_bind_pure]
    rfl

theorem WireProvider.errorOf?_check (p : WireProvider) : errorOf? p.check = firstError? p.nodes := by
  have hconfig := errorOf?_checkFields (List.cons_ne_nil "provider" ["schema"]) p.schema
  have hresources := errorOf?_checkItems (List.cons_ne_nil "provider" ["resources"]) p.resources
  have hdataSources := errorOf?_checkItems (List.cons_ne_nil "provider" ["dataSources"]) p.dataSources
  rw [WireProvider.nodes, firstError?_append, firstError?_append, ← hconfig, ← hresources,
    ← hdataSources, Option.or_assoc]
  exact errorOf?_bind (fun _ => errorOf?_bind (fun _ => errorOf?_bind_pure _ _))

mutual

/-- A written field describes a field of the kind that it names, with the same traits and the same
element. What a scalar holds does not count. -/
inductive WireField.Describes : WireField → FieldSchema → Prop where
  | scalar {kind traits held} : WireField.Describes ⟨kind.name, traits, held⟩ (.scalar kind traits)
  | collection {kind traits e element} (held : WireElement.Describes e element) :
    WireField.Describes ⟨kind.name, traits, some e⟩ (.collection kind element traits)

inductive WireElement.Describes : WireElement → Element → Prop where
  | field {f schema} (schema_describes : WireField.Describes f schema) :
    WireElement.Describes ⟨some f, none⟩ (.field schema)
  | object {fields object} (fields_describe : FieldsDescribe fields object) :
    WireElement.Describes ⟨none, some fields⟩ (.object object)

inductive FieldsDescribe : List (String × WireField) → ObjectSchema → Prop where
  | nil : FieldsDescribe [] []
  | cons {key f schema fields object} (first : WireField.Describes f schema)
    (others : FieldsDescribe fields object) :
    FieldsDescribe ((key, f) :: fields) ((key, schema) :: object)

end

def ItemsDescribe (items : List (String × List (String × WireField)))
    (objects : List (String × ObjectSchema)) : Prop :=
  List.Forall₂ (fun item object => item.1 = object.1 ∧ FieldsDescribe item.2 object.2) items objects

structure WireProvider.Describes (p : WireProvider) (provider : ProviderSchema) : Prop where
  config : FieldsDescribe p.schema provider.config
  resources : ItemsDescribe p.resources provider.resources
  dataSources : ItemsDescribe p.dataSources provider.dataSources

theorem ValueKind.name_of_ofName? {type : String} {kind : ValueKind}
    (h : ValueKind.ofName? type = some kind) :
    kind.name = type := by
  simpa using List.find?_some h

mutual

theorem WireField.describes_of_check {path : String} {schema : FieldSchema} :
    (f : WireField) → f.check path = .ok schema → f.Describes schema
  | ⟨type, traits, none⟩, h => by
    cases hkind : ValueKind.ofName? type with
    | none => simp [WireField.check, hkind] at h
    | some kind =>
      obtain rfl := ValueKind.name_of_ofName? hkind
      cases kind with
      | scalar kind =>
        simp only [WireField.check, hkind] at h
        cases h
        exact .scalar
      | collection kind => simp [WireField.check, hkind] at h
  | ⟨type, traits, some e⟩, h => by
    cases hkind : ValueKind.ofName? type with
    | none => simp [WireField.check, hkind] at h
    | some kind =>
      obtain rfl := ValueKind.name_of_ofName? hkind
      simp only [WireField.check, hkind] at h
      cases kind with
      | scalar kind =>
        cases h
        exact .scalar
      | collection kind =>
        obtain ⟨element, helement, h⟩ := bind_eq_ok.mp h
        cases h
        exact .collection (WireElement.describes_of_check e helement)
  termination_by structural f => f

theorem WireElement.describes_of_check {path : String} {element : Element} :
    (e : WireElement) → e.check path = .ok element → e.Describes element
  | ⟨some f, none⟩, h => by
    obtain ⟨schema, hschema, h⟩ := bind_eq_ok.mp h
    cases h
    exact .field (WireField.describes_of_check f hschema)
  | ⟨none, some fields⟩, h => by
    obtain ⟨object, hobject, h⟩ := bind_eq_ok.mp h
    cases h
    exact .object (fieldsDescribe_of_checkFields fields hobject)
  | ⟨some f, some fields⟩, h => by cases h
  | ⟨none, none⟩, h => by cases h
  termination_by structural e => e

theorem fieldsDescribe_of_checkFields {path : String} {object : ObjectSchema} :
    (fields : List (String × WireField)) → checkFields path fields = .ok object → FieldsDescribe fields object
  | [], h => by
    cases h
    exact .nil
  | (key, f) :: rest, h => by
    rw [checkFields] at h
    obtain ⟨schema, hschema, h⟩ := bind_eq_ok.mp h
    obtain ⟨others, hothers, h⟩ := bind_eq_ok.mp h
    cases h
    exact .cons (WireField.describes_of_check f hschema) (fieldsDescribe_of_checkFields rest hothers)
  termination_by structural fields => fields

end

theorem itemsDescribe_of_checkItems {path : String} {items : List (String × List (String × WireField))}
    {objects : List (String × ObjectSchema)} (h : checkItems path items = .ok objects) :
    ItemsDescribe items objects := by
  refine (forall₂_of_mapM_eq_ok h).imp (fun item object hchecked => ?_)
  obtain ⟨fields, hfields, hchecked⟩ := bind_eq_ok.mp hchecked
  cases hchecked
  exact ⟨rfl, fieldsDescribe_of_checkFields item.2 hfields⟩

theorem WireProvider.describes_of_check {p : WireProvider} {provider : ProviderSchema}
    (h : p.check = .ok provider) :
    p.Describes provider := by
  obtain ⟨config, hconfig, h⟩ := bind_eq_ok.mp h
  obtain ⟨resources, hresources, h⟩ := bind_eq_ok.mp h
  obtain ⟨dataSources, hdataSources, h⟩ := bind_eq_ok.mp h
  cases h
  exact ⟨fieldsDescribe_of_checkFields _ hconfig, itemsDescribe_of_checkItems hresources,
    itemsDescribe_of_checkItems hdataSources⟩

theorem Document.load_eq_error_iff {source : SourceText} {w : WireDocument}
    (h : WireDocument.parse source.text = .ok w) {e : LoadError} : Document.load source = .error e ↔
      ∃ fault, firstError? w.provider.nodes = some fault ∧
        e = .malformedSchema source fault.path fault.fault.reason := by
  simp only [← WireProvider.errorOf?_check, Document.load, h, WireDocument.check]
  cases w.provider.check with
  | error fault => simp [errorOf?, bind, Except.bind, eq_comm]
  | ok provider => simp [errorOf?, bind, Except.bind, pure, Except.pure]

theorem Document.load_eq_ok_iff {source : SourceText} {w : WireDocument}
    (h : WireDocument.parse source.text = .ok w) {d : Document} : Document.load source = .ok d ↔
      ∃ provider, w.provider.check = .ok provider ∧ d = { w.document with provider := provider } := by
  simp only [Document.load, h, WireDocument.check]
  cases w.provider.check with
  | error fault => simp [bind, Except.bind]
  | ok provider => simp [bind, Except.bind, pure, Except.pure, eq_comm]

/-- A text that is read as a written document is refused exactly if a node that is reached from a
field of its provider schema makes no sense. It is refused with the path of the first such node,
each node being looked at before those below it and the fields in the order of their keys, and with
what is said about that node. Otherwise the document that is loaded has the provider schema that is
written, with the same keys, kinds, traits and nesting. -/
theorem Document.load_of_parse {source : SourceText} {w : WireDocument}
    (h : WireDocument.parse source.text = .ok w) :
    w.provider.Sorted ∧
    ((∃ e, Document.load source = .error e) ↔ ∃ n ∈ w.provider.nodes, n.2.fault?.isSome) ∧
    (∀ e, Document.load source = .error e ↔
      ∃ before keys node fault after, w.provider.nodes = before ++ (keys, node) :: after ∧
        (∀ n ∈ before, n.2.fault? = none) ∧ node.fault? = some fault ∧
        e = .malformedSchema source (dotted keys) fault.reason) ∧
    ∀ d, Document.load source = .ok d →
      w.provider.Describes d.provider ∧ d = { w.document with provider := d.provider } := by
  refine ⟨WireDocument.sorted_of_parse h, ?_, fun e => ?_, fun d hd => ?_⟩
  · rw [← exists_firstError?_iff]
    simp only [Document.load_eq_error_iff h]
    constructor
    · rintro ⟨_, fault, hfault, -⟩
      exact ⟨fault, hfault⟩
    · rintro ⟨fault, hfault⟩
      exact ⟨_, fault, hfault, rfl⟩
  · rw [Document.load_eq_error_iff h]
    simp only [firstError?_eq_some_iff]
    constructor
    · rintro ⟨_, ⟨before, keys, node, fault, after, hnodes, hbefore, hfault, rfl⟩, rfl⟩
      exact ⟨before, keys, node, fault, after, hnodes, hbefore, hfault, rfl⟩
    · rintro ⟨before, keys, node, fault, after, hnodes, hbefore, hfault, rfl⟩
      exact ⟨_, ⟨before, keys, node, fault, after, hnodes, hbefore, hfault, rfl⟩, rfl⟩
  · obtain ⟨provider, hprovider, rfl⟩ := (Document.load_eq_ok_iff h).mp hd
    exact ⟨WireProvider.describes_of_check hprovider, rfl⟩

/-- A document with a set that does not say what it holds, in the objects of a list. -/
def setInList : SourceText :=
  ⟨"\x7b\"provider\":\x7b\"schema\":\x7b\"a\":\x7b\"type\":\"list\",\"element\":\x7b\"resource\":\x7b" ++
    "\"b\":\x7b\"type\":\"set\"\x7d\x7d\x7d\x7d\x7d\x7d\x7d", "provider.json"⟩

def setInListWritten : WireDocument :=
  { provider := { schema := [("a", ⟨"list", {}, some ⟨none, some [("b", ⟨"set", {}, none⟩)]⟩⟩)] } }

set_option maxRecDepth 20000 in
theorem parse_setInList : WireDocument.parse setInList.text = .ok setInListWritten := by cbv

/-- The set is the first node that makes no sense, behind the field, its element and the object. -/
theorem Document.load_setInList : Document.load setInList =
    .error (.malformedSchema setInList "provider.schema.a.element.resource.b"
      "set field has no element descriptor") := by
  have hnodes : setInListWritten.provider.nodes =
      [(["provider", "schema", "a"], .field ⟨"list", {}, some ⟨none, some [("b", ⟨"set", {}, none⟩)]⟩⟩),
        (["provider", "schema", "a", "element"], .element ⟨none, some [("b", ⟨"set", {}, none⟩)]⟩)] ++
      (["provider", "schema", "a", "element", "resource", "b"], .field ⟨"set", {}, none⟩) :: [] := rfl
  exact ((Document.load_of_parse parse_setInList).2.2.1 _).mpr
    ⟨_, _, _, .noElement "set", _, hnodes, by decide, rfl, rfl⟩

end ProviderSdk
