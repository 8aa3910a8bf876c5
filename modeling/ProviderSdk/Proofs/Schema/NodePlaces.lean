import ProviderSdk.Proofs.Json.RecordExtents
import ProviderSdk.Proofs.Schema.Nodes

/-!
# Where nodes are written

The keys of every node of a provider schema lead, in the text that it is read from, to the member
that writes the node; where several members of an object have one key, to the last. They lead to no
member only if a record on the way is written as a list.
-/

namespace ProviderSdk

open Json (Layout PlacedMember TextLayout Reader)
open Json.Reader (Reads ReadsValue RecordField RecordForm record readsValue_record)

def PlacedNodes.Follow (nodes : PlacedNodes) (keys : List String) (l : Layout) : Prop :=
  ∀ n ∈ nodes, ∃ further, n.1 = keys ++ further ∧ l.Leads further

namespace PlacedNodes

variable {keys : List String} {l : Layout} {nodes more : PlacedNodes}

theorem follow_nil : Follow [] keys l := by
  intro n hn
  cases hn

theorem Follow.append (h : nodes.Follow keys l) (hmore : more.Follow keys l) :
    Follow (nodes ++ more) keys l := by
  intro n hn
  rcases List.mem_append.mp hn with hn | hn
  · exact h n hn
  · exact hmore n hn

/-- The node that the keys lead to comes first. -/
theorem Follow.cons (h : nodes.Follow keys l) (node : WireNode) : Follow ((keys, node) :: nodes) keys l := by
  intro n hn
  rcases List.mem_cons.mp hn with rfl | hn
  · exact ⟨[], (List.append_nil keys).symm, l.leads_nil⟩
  · exact h n hn

theorem Follow.member {key : String} {m : PlacedMember} (hm : l.member? key = some m)
    (h : nodes.Follow (keys ++ [key]) m.value) : nodes.Follow keys l := by
  intro n hn
  obtain ⟨further, hfurther, hleads⟩ := h n hn
  exact ⟨key :: further, by simp [hfurther], hleads.cons hm⟩

theorem Follow.list {key : String} (hl : l.isList = true) (h : nodes.Follow (keys ++ [key]) l) :
    nodes.Follow keys l := by
  intro n hn
  obtain ⟨further, hfurther, -⟩ := h n hn
  exact ⟨key :: further, by simp [hfurther], Layout.leads_of_isList hl _⟩

end PlacedNodes

open PlacedNodes

def WireField.LaidOut (f : WireField) (l : Layout) : Prop :=
  l.PlainKeys → ∀ keys, (f.nodes keys).Follow keys l

def WireElement.LaidOut (e : WireElement) (l : Layout) : Prop :=
  l.PlainKeys → ∀ keys, (e.nodes keys).Follow keys l

def FieldsLaidOut (fields : List (String × WireField)) (l : Layout) : Prop :=
  l.PlainKeys → ∀ keys, (nodesOfFields keys fields).Follow keys l

def ItemsLaidOut (items : List (String × List (String × WireField))) (l : Layout) : Prop :=
  l.PlainKeys → ∀ keys, (nodesOfItems keys items).Follow keys l

def WireProvider.LaidOut (p : WireProvider) (l : Layout) : Prop := l.PlainKeys → p.nodes.Follow ["provider"] l

theorem WireField.follow_of_element {keys : List String} {l : Layout} {f : WireField}
    (h : ∀ e, f.element = some e → (e.nodes (keys ++ ["element"])).Follow keys l) :
    (f.nodes keys).Follow keys l := by
  obtain ⟨type, traits, element⟩ := f
  cases element with
  | none =>
    rw [WireField.nodes]
    refine Follow.cons ?_ _
    split <;> exact follow_nil
  | some e =>
    rw [WireField.nodes]
    refine Follow.cons ?_ _
    split
    · exact h e rfl
    · exact follow_nil

theorem WireElement.follow_of_parts {keys : List String} {l : Layout} {e : WireElement}
    (hschema : ∀ f, e.schema = some f → (f.nodes (keys ++ ["schema"])).Follow keys l)
    (hresource : ∀ fields, e.resource = some fields →
      (nodesOfFields (keys ++ ["resource"]) fields).Follow keys l) :
    (e.nodes keys).Follow keys l := by
  obtain ⟨schema, resource⟩ := e
  have hparts : ∀ schemaNodes resourceNodes : PlacedNodes, schemaNodes.Follow keys l →
      resourceNodes.Follow keys l →
      Follow ((keys, .element ⟨schema, resource⟩) :: (schemaNodes ++ resourceNodes)) keys l :=
    fun _ _ h h' => (h.append h').cons _
  cases schema with
  | none =>
    cases resource with
    | none => exact hparts [] [] follow_nil follow_nil
    | some fields => exact hparts [] _ follow_nil (hresource fields rfl)
  | some f =>
    cases resource with
    | none => exact hparts _ [] (hschema f rfl) follow_nil
    | some fields => exact hparts _ _ (hschema f rfl) (hresource fields rfl)

theorem follow_nodesOfFields {keys : List String} {l : Layout} {fields : List (String × WireField)}
    (h : ∀ m ∈ fields, (m.2.nodes (keys ++ [m.1])).Follow keys l) :
    (nodesOfFields keys fields).Follow keys l := by
  induction fields with
  | nil => exact follow_nil
  | cons first rest ih =>
    obtain ⟨key, f⟩ := first
    rw [nodesOfFields]
    obtain ⟨hfirst, hrest⟩ := List.forall_mem_cons.mp h
    exact hfirst.append (ih hrest)

mutual

theorem WireField.follow_list {l : Layout} (hl : l.isList = true) :
    (f : WireField) → ∀ keys, (f.nodes keys).Follow keys l
  | ⟨type, traits, none⟩, keys => WireField.follow_of_element (fun e he => by cases he)
  | ⟨type, traits, some e⟩, keys => WireField.follow_of_element (fun e' he => by
      cases he
      exact (WireElement.follow_list hl e _).list hl)
  termination_by structural f => f

theorem WireElement.follow_list {l : Layout} (hl : l.isList = true) :
    (e : WireElement) → ∀ keys, (e.nodes keys).Follow keys l
  | ⟨none, none⟩, keys =>
    WireElement.follow_of_parts (fun f hf => by cases hf) (fun fields hfields => by cases hfields)
  | ⟨some f, none⟩, keys => by
    refine WireElement.follow_of_parts ?_ (fun fields hfields => by cases hfields)
    rintro _ ⟨⟩
    exact (WireField.follow_list hl f _).list hl
  | ⟨none, some fields⟩, keys => by
    refine WireElement.follow_of_parts (fun f hf => by cases hf) ?_
    rintro _ ⟨⟩
    exact (nodesOfFields_follow_list hl fields _).list hl
  | ⟨some f, some fields⟩, keys => by
    refine WireElement.follow_of_parts ?_ ?_
    · rintro _ ⟨⟩
      exact (WireField.follow_list hl f _).list hl
    · rintro _ ⟨⟩
      exact (nodesOfFields_follow_list hl fields _).list hl
  termination_by structural e => e

theorem nodesOfFields_follow_list {l : Layout} (hl : l.isList = true) :
    (fields : List (String × WireField)) → ∀ keys, (nodesOfFields keys fields).Follow keys l
  | [], keys => follow_nil
  | (key, f) :: rest, keys => by
    rw [nodesOfFields]
    exact ((WireField.follow_list hl f _).list hl).append (nodesOfFields_follow_list hl rest keys)
  termination_by structural fields => fields

end

theorem nodesOfItems_follow_list {l : Layout} (hl : l.isList = true)
    (items : List (String × List (String × WireField))) (keys : List String) :
    (nodesOfItems keys items).Follow keys l := by
  intro n hn
  obtain ⟨item, -, hn⟩ := List.mem_flatMap.mp hn
  exact ((nodesOfFields_follow_list hl item.2 _).list hl) n hn

theorem WireProvider.follow_list {l : Layout} (hl : l.isList = true) (p : WireProvider) :
    p.nodes.Follow ["provider"] l := by
  have hfields := nodesOfFields_follow_list hl p.schema (["provider"] ++ ["schema"])
  have hresources := nodesOfItems_follow_list hl p.resources (["provider"] ++ ["resources"])
  have hdataSources := nodesOfItems_follow_list hl p.dataSources (["provider"] ++ ["dataSources"])
  exact ((hfields.list hl).append (hresources.list hl)).append (hdataSources.list hl)

theorem WireProvider.keys_ne_nil {p : WireProvider} {n : List String × WireNode} (hn : n ∈ p.nodes) :
    n.1 ≠ [] := by
  have hlist : (Layout.list .nil []).isList = true := rfl
  obtain ⟨further, hkeys, -⟩ := p.follow_list hlist n hn
  simp [hkeys]

def Under (Q : Layout → Prop) (key : String) (look : String → Option Layout) : Prop :=
  ∃ l, look key = some l ∧ Q l

theorem under_update {Q : Layout → Prop} {key : String} {look : String → Option Layout} {l : Layout}
    (h : Q l) :
    Under Q key (Function.update look key (some l)) :=
  ⟨l, Function.update_self key (some l) look, h⟩

theorem Under.update_of_ne {Q : Layout → Prop} {key key' : String} {look : String → Option Layout}
    (h : Under Q key look) (hne : key ≠ key') (l : Layout) :
    Under Q key (Function.update look key' (some l)) := by
  obtain ⟨l', hl', hQ⟩ := h
  exact ⟨l', by rw [Function.update_of_ne hne, hl'], hQ⟩

theorem Under.exists_member {Q : Layout → Prop} {key : String} {l : Layout}
    (h : Under Q key (fun key => (l.member? key).map PlacedMember.value)) :
    ∃ m, l.member? key = some m ∧ Q m.value := by
  obtain ⟨l', hl', hQ⟩ := h
  obtain ⟨m, hm, rfl⟩ := Option.map_eq_some_iff.mp hl'
  exact ⟨m, hm, hQ⟩

theorem Under.follow {Q : Layout → Prop} {key : String} {keys : List String} {l : Layout}
    {nodes : PlacedNodes} (h : Under Q key (fun key => (l.member? key).map PlacedMember.value))
    (hplain : l.PlainKeys)
    (hQ : ∀ l, Q l → l.PlainKeys → nodes.Follow (keys ++ [key]) l) : nodes.Follow keys l := by
  obtain ⟨m, hm, hm'⟩ := h.exists_member
  exact (hQ m.value hm' (hplain.of_member? hm).2).member hm

namespace Reading

theorem readsValue_text : ReadsValue text := Json.Reader.readsValue_text

theorem readsValue_bool : ReadsValue bool := Json.Reader.readsValue_bool

theorem readsValue_itemCount : ReadsValue itemCount := Json.Reader.readsValue_natBelow _

theorem readsValue_optionalText : ReadsValue optionalText := readsValue_text.option.readsValue

theorem readsValue_optionalValue : ReadsValue optionalValue := Json.Reader.readsValue_value.option.readsValue

def ElementUnder (look : String → Option Layout) (f : WireField) : Prop :=
  ∀ e, f.element = some e → Under e.LaidOut "element" look

theorem ElementUnder.update {key : String} {look : String → Option Layout} {f f' : WireField}
    (h : ElementUnder look f) (hkey : "element" ≠ key) (hf : f'.element = f.element) (l : Layout) :
    ElementUnder (Function.update look key (some l)) f' :=
  fun e he => (h e (hf ▸ he)).update_of_ne hkey l

theorem traitField_tracks {α : Type} {key : String} {read : Reader α} {set : FieldTraits → α → FieldTraits}
    (hread : ReadsValue read) (hkey : "element" ≠ key) : (traitField key read set).Tracks ElementUnder :=
  hread.tracks (fun _ _ _ l h => h.update hkey rfl l)

theorem wireFieldForm_tracks {element : Reader WireElement} (helement : Reads WireElement.LaidOut element) :
    (wireFieldForm element).Tracks ElementUnder where
  empty := by
    intro e he
    cases he
  fields := by
    simp only [wireFieldForm, List.forall_mem_cons]
    refine ⟨readsValue_text.tracks_needed (fun _ _ _ l h => h.update (by decide) rfl l),
      traitField_tracks readsValue_bool (by decide), traitField_tracks readsValue_bool (by decide),
      traitField_tracks readsValue_bool (by decide), traitField_tracks readsValue_bool (by decide),
      traitField_tracks readsValue_bool (by decide), ?_, traitField_tracks readsValue_itemCount (by decide),
      traitField_tracks readsValue_itemCount (by decide),
      traitField_tracks readsValue_optionalText (by decide),
      traitField_tracks readsValue_optionalText (by decide), traitField_tracks readsValue_text (by decide),
      traitField_tracks readsValue_optionalValue (by decide), by simp⟩
    exact helement.option.tracks (fun _ _ _ _ _ hread e he => under_update (hread e he))
  unknown := by
    intro key hkey look f l h
    simp only [wireFieldForm, List.forall_mem_cons] at hkey
    obtain ⟨-, -, -, -, -, -, helement, -⟩ := hkey
    exact h.update helement rfl l

theorem WireField.laidOut_of_record {f : WireField} {l : Layout} (h : l.PlainKeys →
    l.isList = true ∨ ElementUnder (fun key => (l.member? key).map PlacedMember.value) f) : f.LaidOut l := by
  intro hplain keys
  rcases h hplain with hlist | helement
  · exact f.follow_list hlist keys
  · exact WireField.follow_of_element (fun e he =>
      (helement e he).follow hplain (fun _ h hplain => h hplain _))

structure PartsUnder (look : String → Option Layout) (e : WireElement) : Prop where
  schema : ∀ f, e.schema = some f → Under f.LaidOut "schema" look
  resource : ∀ fields, e.resource = some fields → Under (FieldsLaidOut fields) "resource" look

theorem wireElementForm_tracks {field : Reader WireField} (hfield : Reads WireField.LaidOut field)
    (hfields : Reads (fun fields l => FieldsLaidOut fields l) (Json.Reader.map field)) :
    (wireElementForm field).Tracks PartsUnder where
  empty := by
    constructor
    · intro f hf
      cases hf
    · intro fields hfields
      cases hfields
  fields := by
    simp only [wireElementForm, List.forall_mem_cons]
    refine ⟨hfield.option.tracks ?_, hfields.option.tracks ?_, by simp⟩
    · intro look e f l h hf
      exact ⟨fun f' hf' => under_update (hf f' hf'),
        fun fields hfields => (h.resource fields hfields).update_of_ne (by decide) l⟩
    · intro look e fields l h hfields
      exact ⟨fun f' hf' => (h.schema f' hf').update_of_ne (by decide) l,
        fun fields' h' => under_update (hfields fields' h')⟩
  unknown := by
    intro key hkey look e l h
    simp only [wireElementForm, List.forall_mem_cons] at hkey
    obtain ⟨hschema, hresource, -⟩ := hkey
    exact ⟨fun f hf => (h.schema f hf).update_of_ne hschema l,
      fun fields hf => (h.resource fields hf).update_of_ne hresource l⟩

theorem WireElement.laidOut_of_record {e : WireElement} {l : Layout} (h : l.PlainKeys →
    l.isList = true ∨ PartsUnder (fun key => (l.member? key).map PlacedMember.value) e) : e.LaidOut l := by
  intro hplain keys
  rcases h hplain with hlist | hparts
  · exact e.follow_list hlist keys
  · refine WireElement.follow_of_parts (fun f hf => ?_) (fun fields hfields => ?_)
    · exact (hparts.schema f hf).follow hplain (fun _ h hplain => h hplain _)
    · exact (hparts.resource fields hfields).follow hplain (fun _ h hplain => h hplain _)

theorem fieldsLaidOut_of_map {fields : List (String × WireField)} {l : Layout} (h : l.PlainKeys →
    ∀ m ∈ fields, ∃ placed, l.member? m.1 = some placed ∧ m.2.LaidOut placed.value) :
      FieldsLaidOut fields l := by
  intro hplain keys
  refine follow_nodesOfFields (fun m hm => ?_)
  obtain ⟨placed, hplaced, hlaid⟩ := h hplain m hm
  exact (hlaid (hplain.of_member? hplaced).2 _).member hplaced

/-- Fields are where they are read, however deep they nest. -/
theorem reads_wireFieldWithin (levels : Nat) : Reads WireField.LaidOut (wireFieldWithin levels) := by
  induction levels with
  | zero => exact Json.Reader.reads_refuseHere
  | succ levels ih =>
    have hfields : Reads (fun fields l => FieldsLaidOut fields l)
        (Json.Reader.map (wireFieldWithin levels)) :=
      ih.map.imp (fun _ _ => fieldsLaidOut_of_map)
    have helement : Reads WireElement.LaidOut (record (wireElementForm (wireFieldWithin levels))) :=
      (wireElementForm_tracks ih hfields).record.imp (fun _ _ => WireElement.laidOut_of_record)
    exact (wireFieldForm_tracks helement).record.imp (fun _ _ => WireField.laidOut_of_record)

theorem reads_wireObject : Reads (fun fields l => FieldsLaidOut fields l) wireObject :=
  (reads_wireFieldWithin _).map.imp (fun _ _ => fieldsLaidOut_of_map)

theorem itemsLaidOut_of_map {items : List (String × List (String × WireField))} {l : Layout}
    (h : l.PlainKeys →
    ∀ m ∈ items, ∃ placed, l.member? m.1 = some placed ∧ FieldsLaidOut m.2 placed.value) :
      ItemsLaidOut items l := by
  intro hplain keys n hn
  obtain ⟨item, hitem, hn⟩ := List.mem_flatMap.mp hn
  obtain ⟨placed, hplaced, hlaid⟩ := h hplain item hitem
  exact (hlaid (hplain.of_member? hplaced).2 _).member hplaced n hn

theorem reads_items : Reads (fun items l => ItemsLaidOut items l) (Json.Reader.map wireObject) :=
  reads_wireObject.map.imp (fun _ _ => itemsLaidOut_of_map)

structure SectionsUnder (look : String → Option Layout) (p : WireProvider) : Prop where
  schema : p.schema ≠ [] → Under (FieldsLaidOut p.schema) "schema" look
  resources : p.resources ≠ [] → Under (ItemsLaidOut p.resources) "resources" look
  dataSources : p.dataSources ≠ [] → Under (ItemsLaidOut p.dataSources) "dataSources" look

theorem providerForm_tracks : providerForm.Tracks SectionsUnder where
  empty := ⟨fun h => absurd rfl h, fun h => absurd rfl h, fun h => absurd rfl h⟩
  fields := by
    simp only [providerForm, List.forall_mem_cons]
    refine ⟨reads_wireObject.tracks ?_, reads_items.tracks ?_, reads_items.tracks ?_, by simp⟩
    · intro look p fields l h hfields
      exact ⟨fun _ => under_update hfields, fun hne => (h.resources hne).update_of_ne (by decide) l,
        fun hne => (h.dataSources hne).update_of_ne (by decide) l⟩
    · intro look p items l h hitems
      exact ⟨fun hne => (h.schema hne).update_of_ne (by decide) l, fun _ => under_update hitems,
        fun hne => (h.dataSources hne).update_of_ne (by decide) l⟩
    · intro look p items l h hitems
      exact ⟨fun hne => (h.schema hne).update_of_ne (by decide) l,
        fun hne => (h.resources hne).update_of_ne (by decide) l, fun _ => under_update hitems⟩
  unknown := by
    intro key hkey look p l h
    simp only [providerForm, List.forall_mem_cons] at hkey
    obtain ⟨hschema, hresources, hdataSources, -⟩ := hkey
    exact ⟨fun hne => (h.schema hne).update_of_ne hschema l,
      fun hne => (h.resources hne).update_of_ne hresources l,
        fun hne => (h.dataSources hne).update_of_ne hdataSources l⟩

theorem WireProvider.laidOut_of_record {p : WireProvider} {l : Layout} (h : l.PlainKeys →
    l.isList = true ∨ SectionsUnder (fun key => (l.member? key).map PlacedMember.value) p) : p.LaidOut l := by
  intro hplain
  rcases h hplain with hlist | hsections
  · exact p.follow_list hlist
  · rw [WireProvider.nodes]
    refine (Follow.append ?_ ?_).append ?_
    · by_cases hne : p.schema = []
      · rw [hne]
        exact follow_nil
      · exact (hsections.schema hne).follow hplain (fun _ h hplain => h hplain _)
    · by_cases hne : p.resources = []
      · rw [hne]
        exact follow_nil
      · exact (hsections.resources hne).follow hplain (fun _ h hplain => h hplain _)
    · by_cases hne : p.dataSources = []
      · rw [hne]
        exact follow_nil
      · exact (hsections.dataSources hne).follow hplain (fun _ h hplain => h hplain _)

theorem readsValue_textMap : ReadsValue textMap := readsValue_text.map.readsValue

theorem readsValue_textList : ReadsValue textList := readsValue_text.list

theorem readsValue_asset : ReadsValue (record assetRecord) := by
  refine readsValue_record ?_
  simp only [assetRecord, List.forall_mem_cons]
  exact ⟨(Json.Reader.readsValue_choice _).needed, by simp⟩

theorem readsValue_default : ReadsValue (record defaultForm) := by
  refine readsValue_record ?_
  simp only [defaultForm, List.forall_mem_cons]
  exact ⟨readsValue_optionalValue.of, readsValue_textList.of, by simp⟩

theorem readsValue_fieldOverrideWithin (levels : Nat) : ReadsValue (fieldOverrideWithin levels) := by
  induction levels with
  | zero => exact Json.Reader.reads_refuseHere
  | succ levels ih =>
    refine readsValue_record ?_
    simp only [fieldOverrideForm, List.forall_mem_cons]
    exact ⟨readsValue_optionalText.of, readsValue_optionalText.of, readsValue_textList.of,
      ih.option.readsValue.of, ih.map.readsValue.of, (readsValue_asset.option.readsValue.image _).of,
      readsValue_default.option.readsValue.of, readsValue_bool.option.readsValue.of, by simp⟩

theorem readsValue_fieldOverrides : ReadsValue fieldOverrides :=
  (readsValue_fieldOverrideWithin _).map.readsValue

theorem readsValue_docs : ReadsValue (record docForm) := by
  refine readsValue_record ?_
  simp only [docForm, List.forall_mem_cons]
  exact ⟨readsValue_optionalText.of, readsValue_optionalText.of, readsValue_optionalText.of, by simp⟩

theorem readsValue_itemFields : ∀ f ∈ itemFields, ∀ r, ReadsValue (f.read r) := by
  simp only [itemFields, List.forall_mem_cons]
  exact ⟨readsValue_text.needed, readsValue_fieldOverrides.of, readsValue_docs.option.readsValue.of, by simp⟩

theorem readsValue_dataSource : ReadsValue (record dataSourceForm) := readsValue_record readsValue_itemFields

theorem readsValue_resource : ReadsValue (record resourceForm) := by
  refine readsValue_record (List.forall_mem_append.mpr ⟨readsValue_itemFields, ?_⟩)
  exact List.forall_mem_singleton.mpr readsValue_bool.of

theorem readsValue_overlayWithin (levels : Nat) : ReadsValue (overlayWithin levels) := by
  induction levels with
  | zero => exact Json.Reader.reads_refuseHere
  | succ levels ih =>
    refine readsValue_record ?_
    simp only [overlayForm, List.forall_mem_cons]
    exact ⟨readsValue_textList.of, ih.map.readsValue.of, by simp⟩

theorem readsValue_optionalOverlay : ReadsValue (Json.Reader.option overlay) :=
  (readsValue_overlayWithin _).option.readsValue

theorem readsValue_typeScript : ReadsValue (record typeScriptForm) := by
  refine readsValue_record ?_
  simp only [typeScriptForm, List.forall_mem_cons]
  exact ⟨readsValue_textMap.of, readsValue_textMap.of, readsValue_textMap.of,
    readsValue_optionalOverlay.of, by simp⟩

theorem readsValue_python : ReadsValue (record pythonForm) := by
  refine readsValue_record ?_
  simp only [pythonForm, List.forall_mem_cons]
  exact ⟨readsValue_textMap.of, readsValue_optionalOverlay.of, by simp⟩

theorem readsValue_cSharp : ReadsValue (record cSharpForm) := by
  refine readsValue_record ?_
  simp only [cSharpForm, List.forall_mem_cons]
  exact ⟨readsValue_textMap.of, readsValue_optionalOverlay.of, by simp⟩

theorem readsValue_go : ReadsValue (record goForm) := by
  refine readsValue_record ?_
  simp only [goForm, List.forall_mem_cons]
  exact ⟨readsValue_optionalText.of, readsValue_optionalOverlay.of, by simp⟩

theorem readsValue_provenance : ReadsValue (record provenanceForm) := by
  refine readsValue_record ?_
  simp only [provenanceForm, List.forall_mem_cons]
  exact ⟨readsValue_text.of, readsValue_optionalText.of, readsValue_optionalText.of, by simp⟩

def ProviderUnder (look : String → Option Layout) (w : WireDocument) : Prop :=
  w.provider = {} ∨ Under w.provider.LaidOut "provider" look

theorem ProviderUnder.update {key : String} {look : String → Option Layout} {w w' : WireDocument}
    (h : ProviderUnder look w) (hkey : "provider" ≠ key) (hw : w'.provider = w.provider) (l : Layout) :
    ProviderUnder (Function.update look key (some l)) w' := by
  rw [ProviderUnder, hw]
  exact h.imp_right (fun h => h.update_of_ne hkey l)

theorem documentField_tracks {α : Type} {key : String} {read : Reader α} {set : Document → α → Document}
    (hread : ReadsValue read) (hkey : "provider" ≠ key) : (documentField key read set).Tracks ProviderUnder :=
  hread.tracks (fun _ _ _ l h => h.update hkey rfl l)

theorem documentForm_tracks : documentForm.Tracks ProviderUnder where
  empty := .inl rfl
  fields := by
    simp only [documentForm, List.forall_mem_cons]
    have hprovider : Reads WireProvider.LaidOut (record providerForm) :=
      providerForm_tracks.record.imp (fun _ _ => WireProvider.laidOut_of_record)
    refine ⟨documentField_tracks readsValue_text (by decide),
      documentField_tracks readsValue_text (by decide), documentField_tracks readsValue_textList (by decide),
      documentField_tracks readsValue_text (by decide), documentField_tracks readsValue_text (by decide),
      documentField_tracks readsValue_text (by decide),
      hprovider.tracks (fun _ _ _ _ _ hlaid => .inr (under_update hlaid)),
      documentField_tracks readsValue_fieldOverrides (by decide),
      documentField_tracks readsValue_resource.map.readsValue (by decide),
      documentField_tracks readsValue_dataSource.map.readsValue (by decide),
      documentField_tracks readsValue_typeScript (by decide),
      documentField_tracks readsValue_python (by decide), documentField_tracks readsValue_cSharp (by decide),
      documentField_tracks readsValue_go (by decide),
      documentField_tracks readsValue_provenance.option.readsValue (by decide), by simp⟩
  unknown := by
    intro key hkey look w l h
    simp only [documentForm, List.forall_mem_cons] at hkey
    obtain ⟨-, -, -, -, -, -, hprovider, -⟩ := hkey
    exact h.update hprovider rfl l

end Reading

/-- The keys of every node lead to a member in the text that the node was read from, unless they
lead to a list before, if no key of the text needs to be escaped. -/
theorem WireDocument.exists_layout {text : String} {w : WireDocument} (h : WireDocument.parse text = .ok w) :
    ∃ t : TextLayout, t.WellFormed ∧ t.chars = text.toList ∧
      (t.value.PlainKeys → ∀ n ∈ w.provider.nodes, t.value.Leads n.1) := by
  obtain ⟨t, ht, hchars, hprovider⟩ := Reading.documentForm_tracks.record.run h
  refine ⟨t, ht, hchars, fun hplain n hn => ?_⟩
  rcases hprovider hplain with hlist | hempty | hunder
  · exact Layout.leads_of_isList hlist n.1
  · rw [hempty] at hn
    cases hn
  · obtain ⟨m, hm, hlaid⟩ := hunder.exists_member
    obtain ⟨further, hkeys, hleads⟩ := hlaid (hplain.of_member? hm).2 n hn
    rw [hkeys]
    exact hleads.cons hm

end ProviderSdk
