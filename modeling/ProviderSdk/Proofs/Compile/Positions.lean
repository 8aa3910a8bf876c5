import ProviderSdk.Proofs.Compile.Resolution

/-!
# Inputs and outputs of a field

A field is resolved once for what a user gives and once for what the provider returns. Both
properties have one name and one description, and their types the same form at every depth: objects
that a user gives have of the properties that are returned those that may be set, and their types
are named with a mark behind the owner.
-/

namespace ProviderSdk

theorem PairedField.nestedInduction {motive : PairedField → Prop}
    (bare : ∀ key schema override, motive ⟨key, schema, override, none⟩)
    (field : ∀ key schema override f, motive f → motive ⟨key, schema, override, some (.field f)⟩)
    (object : ∀ key schema override fields, (∀ f ∈ fields, motive f) →
      motive ⟨key, schema, override, some (.object fields)⟩)
    (f : PairedField) : motive f := by
  apply @PairedField.rec motive (fun e => ∀ key schema override, motive ⟨key, schema, override, some e⟩)
    (fun e => ∀ key schema override, motive ⟨key, schema, override, e⟩) (fun fields => ∀ f ∈ fields, motive f)
  · exact fun key schema override _ h => h key schema override
  · exact fun f h key schema override => field key schema override f h
  · exact fun fields h key schema override => object key schema override fields h
  · exact bare
  · exact fun _ h => h
  · simp
  · intro f rest hf hrest g hg
    rcases List.mem_cons.mp hg with rfl | hg
    · exact hf
    · exact hrest g hg

mutual

/-- The fields of the object that a field holds, inside however many collections; none if it holds
no object. -/
def PairedField.heldFields : PairedField → List PairedField
  | ⟨_, _, _, none⟩ => []
  | ⟨_, _, _, some e⟩ => e.heldFields
  termination_by structural f => f

def PairedElement.heldFields : PairedElement → List PairedField
  | .field f => f.heldFields
  | .object fields => fields
  termination_by structural e => e

end

mutual

/-- The type of a field among inputs, beside its type among outputs. The fields are those of the
object that the field holds: of these an input has what may be set. -/
inductive TypeRef.InputOf :
    (owner : String) → (fields : List PairedField) → (input output : TypeRef) → Prop where
  | bool {owner fields} : TypeRef.InputOf owner fields .bool .bool
  | int {owner fields} : TypeRef.InputOf owner fields .int .int
  | float {owner fields} : TypeRef.InputOf owner fields .float .float
  | string {owner fields} : TypeRef.InputOf owner fields .string .string
  | asset {owner fields kind} : TypeRef.InputOf owner fields (.asset kind) (.asset kind)
  | custom {owner fields token altTypes} :
      TypeRef.InputOf owner fields (.custom ⟨token, altTypes⟩) (.custom ⟨token, []⟩)
  | array {owner fields input output} (element : TypeRef.InputOf owner fields input output) :
      TypeRef.InputOf owner fields (.array input) (.array output)
  | map {owner fields input output} (element : TypeRef.InputOf owner fields input output) :
      TypeRef.InputOf owner fields (.map input) (.map output)
  | object {owner fields suffix inputs outputs} (properties : Property.InputsOf (owner ++ suffix) fields
    inputs outputs) :
      TypeRef.InputOf owner fields (.object ⟨owner ++ "Args" ++ suffix, inputs⟩)
        (.object ⟨owner ++ suffix, outputs⟩)

inductive Property.InputOf : (owner : String) → (f : PairedField) → (input output : Property) → Prop where
  | intro {owner f input output} (key : output.rawName = f.key) (rawName : input.rawName = output.rawName)
      (name : input.name = output.name) (doc : input.doc = output.doc)
        (description : input.description = output.description)
      (default : input.default = output.default) (deprecation : input.deprecation = output.deprecation)
      (secret : input.secret = output.secret) (positions : input.position = .input ∧
        output.position = .output)
      (optional : output.optional = true → input.optional = true)
      (type : TypeRef.InputOf owner f.heldFields input.type output.type) :
        Property.InputOf owner f input output

inductive Property.InputsOf :
    (owner : String) → (fields : List PairedField) → (inputs outputs : List Property) → Prop where
  | nil {owner} : Property.InputsOf owner [] [] []
  | settable {owner f fields input inputs output outputs} (set : f.schema.isInput = true)
      (first : Property.InputOf owner f input output) (rest : Property.InputsOf owner fields inputs outputs) :
      Property.InputsOf owner (f :: fields) (input :: inputs) (output :: outputs)
  | returned {owner f fields inputs output outputs} (set : f.schema.isInput = false)
    (key : output.rawName = f.key)
      (rest : Property.InputsOf owner fields inputs outputs) :
      Property.InputsOf owner (f :: fields) inputs (output :: outputs)

end

variable {package owner : String}

theorem isOptional_input_of_output {schema : FieldSchema} {hasDefault : Bool}
    (h : isOptional schema hasDefault .output = true) : isOptional schema hasDefault .input = true := by
  simp only [isOptional, Bool.and_eq_true] at h
  simp [isOptional, h.1.1]

/-- Apart from their types the two properties of a field agree whatever they are. -/
theorem Property.InputOf.of_types {f : PairedField} {page : Option DocPage} {input output : TypeRef}
    (h : TypeRef.InputOf owner f.heldFields input output) : Property.InputOf owner f
      (propertyOf f.key f.schema f.override input .input page)
        (propertyOf f.key f.schema f.override output .output page) :=
  .intro rfl rfl rfl rfl rfl rfl rfl rfl ⟨rfl, rfl⟩ isOptional_input_of_output h

/-- Either nothing is said about the type of a field, or what is said holds in both positions, but
for the alternatives that only an input has. -/
theorem overriddenType?_positions (package : String) (override : Option FieldOverride) :
    (overriddenType? package override .input = none ∧ overriddenType? package override .output = none) ∨
      ∃ inputs outputs, overriddenType? package override .input = some inputs ∧
        overriddenType? package override .output = some outputs ∧
        ∀ owner fields input output, inputs = .ok input → outputs = .ok output →
          TypeRef.InputOf owner fields input output := by
  unfold overriddenType?
  cases override.bind (fun o => o.type) with
  | some text =>
    refine .inr ⟨_, _, rfl, rfl, fun owner fields input output hinput houtput => ?_⟩
    obtain ⟨token, htoken, hinput⟩ := bind_eq_ok.mp hinput
    obtain ⟨altTypes, -, hinput⟩ := bind_eq_ok.mp hinput
    obtain ⟨token', htoken', houtput⟩ := bind_eq_ok.mp houtput
    cases htoken.symm.trans htoken'
    cases hinput
    cases houtput
    exact .custom
  | none =>
    cases override.bind (fun o => o.asset) with
    | some asset =>
      refine .inr ⟨_, _, rfl, rfl, fun owner fields input output hinput houtput => ?_⟩
      cases hinput
      cases houtput
      exact .asset
    | none => exact .inl ⟨rfl, rfl⟩

theorem TypeRef.InputOf.ofScalar (owner : String) (fields : List PairedField) (kind : ScalarKind) :
    TypeRef.InputOf owner fields (scalarType kind) (scalarType kind) := by
  cases kind with
  | bool => exact .bool
  | int => exact .int
  | float => exact .float
  | string => exact .string

theorem TypeRef.InputOf.collection {fields : List PairedField} {kind : CollectionKind} {isSingle : Bool}
    {innerInput innerOutput input output : TypeRef} (h : TypeRef.InputOf owner fields innerInput innerOutput)
    (hresults : (match kind with
      | .map => pure (.map innerInput)
      | _ => pure (if isSingle then innerInput else .array innerInput) : Except ResolveError TypeRef) =
        .ok input ∧
      (match kind with
      | .map => pure (.map innerOutput)
      | _ => pure (if isSingle then innerOutput else .array innerOutput) : Except ResolveError TypeRef) =
        .ok output) :
    TypeRef.InputOf owner fields input output := by
  obtain ⟨hinput, houtput⟩ := hresults
  have hordinary : TypeRef.InputOf owner fields (if isSingle then innerInput else .array innerInput)
      (if isSingle then innerOutput else .array innerOutput) := by
    cases isSingle with
    | true => exact h
    | false => exact .array h
  cases kind with
  | map =>
    cases hinput
    cases houtput
    exact .map h
  | _ =>
    cases hinput
    cases houtput
    exact hordinary

/-- If the types of the fields of an object agree, so do its properties. -/
theorem nestedProperties_inputsOf {fields : List PairedField} {inputs outputs : List Property}
    (h : ∀ f ∈ fields, ∀ input output, typeOf package owner .input f = .ok input →
      typeOf package owner .output f = .ok output → TypeRef.InputOf owner f.heldFields input output)
    (hinputs : nestedProperties package owner .input fields = .ok inputs)
    (houtputs : nestedProperties package owner .output fields = .ok outputs) :
    Property.InputsOf owner fields inputs outputs := by
  induction fields generalizing inputs outputs with
  | nil =>
    cases hinputs
    cases houtputs
    exact .nil
  | cons f rest ih =>
    rw [nestedProperties, if_pos (.inl rfl)] at houtputs
    obtain ⟨output, houtput, houtputs⟩ := bind_eq_ok.mp houtputs
    obtain ⟨restOutputs, hrestOutputs, houtputs⟩ := bind_eq_ok.mp houtputs
    cases houtputs
    have hrest {restInputs : List Property} (hinputs : nestedProperties package owner .input rest =
        .ok restInputs) :
        Property.InputsOf owner rest restInputs restOutputs :=
      ih (fun g hg => h g (List.mem_cons_of_mem _ hg)) hinputs hrestOutputs
    rw [nestedProperties] at hinputs
    split at hinputs
    · next hset =>
      obtain ⟨input, hinput, hinputs⟩ := bind_eq_ok.mp hinputs
      obtain ⟨restInputs, hrestInputs, hinputs⟩ := bind_eq_ok.mp hinputs
      cases hinputs
      have htype := h f List.mem_cons_self input output hinput houtput
      exact .settable (hset.resolve_left (by decide)) (.of_types htype) (hrest hrestInputs)
    · next hnot =>
      rw [not_or, Bool.not_eq_true] at hnot
      exact .returned hnot.2 rfl (hrest hinputs)

theorem typeOf_inputOf_of_element {key : String} {schema : FieldSchema} {override : Option FieldOverride}
    {element : Option PairedElement} {fields : List PairedField} {input output : TypeRef}
    (h : ∀ e, element = some e → ∀ innerInput innerOutput,
      elementType package owner .input key e = .ok innerInput →
      elementType package owner .output key e = .ok innerOutput →
      TypeRef.InputOf owner fields innerInput innerOutput)
    (hinput : typeOf package owner .input ⟨key, schema, override, element⟩ = .ok input)
    (houtput : typeOf package owner .output ⟨key, schema, override, element⟩ = .ok output) :
    TypeRef.InputOf owner fields input output := by
  rw [typeOf] at hinput houtput
  obtain ⟨hnone, hnone'⟩ | ⟨_, _, hsaid, hsaid', hagree⟩ := overriddenType?_positions package override
  · rw [hnone] at hinput
    rw [hnone'] at houtput
    cases hkind : schema.kind with
    | scalar kind =>
      simp only [hkind] at hinput houtput
      cases hinput
      cases houtput
      exact .ofScalar _ _ _
    | collection kind =>
      simp only [hkind] at hinput houtput
      cases element with
      | none => cases hinput
      | some e =>
        obtain ⟨innerInput, hinnerInput, hinput⟩ := bind_eq_ok.mp hinput
        obtain ⟨innerOutput, hinnerOutput, houtput⟩ := bind_eq_ok.mp houtput
        exact (h e rfl _ _ hinnerInput hinnerOutput).collection ⟨hinput, houtput⟩
  · rw [hsaid] at hinput
    rw [hsaid'] at houtput
    exact hagree _ _ _ _ hinput houtput

theorem append_ne_empty {owner : String} (h : owner ≠ "") (rest : String) : owner ++ rest ≠ "" :=
  fun heq => h (String.append_eq_empty_iff.mp heq).1

/-- The two types of a field agree, whatever it nests: what stands in an object has the name of its
type among outputs for an owner. -/
theorem typeOf_inputOf {f : PairedField} {input output : TypeRef} (howner : owner ≠ "")
    (hinput : typeOf package owner .input f = .ok input)
    (houtput : typeOf package owner .output f = .ok output) :
    TypeRef.InputOf owner f.heldFields input output := by
  -- For every owner: the fields of an object are resolved below its own name, which is never empty.
  induction f using PairedField.nestedInduction generalizing owner input output with
  | bare key schema override =>
    refine typeOf_inputOf_of_element (fun e he => ?_) hinput houtput
    cases he
  | field key schema override f ih =>
    refine typeOf_inputOf_of_element
      (fun e he innerInput innerOutput hinnerInput hinnerOutput => ?_) hinput houtput
    cases he
    rw [elementType] at hinnerInput hinnerOutput
    exact ih howner hinnerInput hinnerOutput
  | object key schema override fields ih =>
    refine typeOf_inputOf_of_element
      (fun e he innerInput innerOutput hinnerInput hinnerOutput => ?_) hinput houtput
    cases he
    rw [elementType] at hinnerInput hinnerOutput
    obtain ⟨inputs, hinputs, hinnerInput⟩ := bind_eq_ok.mp hinnerInput
    obtain ⟨outputs, houtputs, hinnerOutput⟩ := bind_eq_ok.mp hinnerOutput
    cases hinnerInput
    cases hinnerOutput
    have hproperties := nestedProperties_inputsOf
      (fun f hf _ _ => ih f hf (append_ne_empty howner _)) hinputs houtputs
    simpa [objectTypeName, howner, PairedField.heldFields, PairedElement.heldFields]
      using TypeRef.InputOf.object hproperties

/-- If a field can be resolved in both positions, the two properties agree: they have the same
names, documentation, default, deprecation and secrecy; one that may be left out among outputs may
be left out among inputs; and their types have the same form at every depth, objects among inputs
being those among outputs without what only the provider sets. -/
theorem resolveProperty_inputOf {f : PairedField} {page : Option DocPage} {input output : Property}
    (howner : owner ≠ "") (hinput : resolveProperty package owner .input page f = .ok input)
    (houtput : resolveProperty package owner .output page f = .ok output) :
    Property.InputOf owner f input output := by
  obtain ⟨inputType, hinputType, hinput⟩ := bind_eq_ok.mp hinput
  obtain ⟨outputType, houtputType, houtput⟩ := bind_eq_ok.mp houtput
  cases hinput
  cases houtput
  exact .of_types (typeOf_inputOf howner hinputType houtputType)

/-- A list of at most one object, with a field that only the provider sets, a map of further
objects, and fields whose types are said. -/
def volumeField : PairedField :=
  pairField "volumes"
    (some {
      maxItemsOne := some true
      fields := [("size", { type := some "acme:net:Size", altTypes := ["acme:net:Bytes"] }),
        ("image", { asset := some .fileArchive, default := some { envVars := ["ACME_IMAGE"] } })] })
    (.collection .list (.object [
      ("id", .scalar .string { computed := true }),
      ("image", .scalar .string { optional := true }),
      ("parts", .collection .map (.object [("label", .scalar .string { required := true })])
        { optional := true }),
      ("size", .scalar .int { optional := true })]) { optional := true, deprecated := some "Use disks." })

def Property.objectNames (p : Property) : List (String × List String) :=
  p.type.objects.map (fun o => (o.name, o.properties.map (fun p => p.name)))

theorem volumeField_inputOf :
    "Host" ≠ "" ∧ ∃ input output, resolveProperty "acme" "Host" .input none volumeField = .ok input ∧
      resolveProperty "acme" "Host" .output none volumeField = .ok output ∧
      input.objectNames = [("HostArgsVolume", ["image", "parts", "size"]),
        ("HostVolumeArgsPart", ["label"])] ∧
      output.objectNames = [("HostVolume", ["id", "image", "parts", "size"]), ("HostVolumePart", ["label"])] ∧
      Property.InputOf "Host" volumeField input output := by
  have howner : "Host" ≠ "" := by decide
  have hinputs : (resolveProperty "acme" "Host" .input none volumeField).toOption.any (fun p =>
      p.objectNames = [("HostArgsVolume", ["image", "parts", "size"]), ("HostVolumeArgsPart", ["label"])]) =
        true := by
    decide +kernel
  have houtputs : (resolveProperty "acme" "Host" .output none volumeField).toOption.any (fun p =>
      p.objectNames = [("HostVolume", ["id", "image", "parts", "size"]), ("HostVolumePart", ["label"])]) =
        true := by
    decide +kernel
  obtain ⟨input, hinput, hinputNames⟩ := exists_ok_of_any hinputs
  obtain ⟨output, houtput, houtputNames⟩ := exists_ok_of_any houtputs
  exact ⟨howner, input, output, hinput, houtput, of_decide_eq_true hinputNames,
    of_decide_eq_true houtputNames, resolveProperty_inputOf howner hinput houtput⟩

end ProviderSdk
