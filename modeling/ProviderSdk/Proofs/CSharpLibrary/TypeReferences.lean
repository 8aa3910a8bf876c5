import ProviderSdk.Proofs.CSharpLibrary.ObjectClasses

/-!
# References to classes

The types that stand in the classes of a C# library refer to object types by the names of their
classes. What a resource or data source refers to is declared in its own file. The class of
configuration variables refers to classes, too, but its file declares none: the references of a
library are closed exactly if other files happen to declare classes of these names.
-/

namespace ProviderSdk

def TypeRef.innermost? : TypeRef → Option ObjectType
  | .array element => element.innermost?
  | .map element => element.innermost?
  | .object type => some type
  | _ => none
  termination_by structural t => t

theorem TypeRef.mem_objectsOnPaths_of_innermost? {t : TypeRef} {o : ObjectType} (h : t.innermost? = some o)
    (key : String) : ([key], o) ∈ t.objectsOnPaths key := by
  induction t with
  | array element ih => exact ih h
  | map element ih => exact ih h
  | object type ih =>
    cases h
    exact List.mem_cons_self
  | bool | int | float | string | custom | asset => cases h

theorem TypeRef.mem_objects_of_innermost? {t : TypeRef} {o : ObjectType} (h : t.innermost? = some o) :
    o ∈ t.objects := by
  rw [← map_snd_objectsOnPaths "" t]
  exact List.mem_map_of_mem (mem_objectsOnPaths_of_innermost? h "")

theorem TypeRef.objects_trans {t : TypeRef} {o inner : ObjectType} (ho : o ∈ t.objects) {p : Property}
    (hp : p ∈ o.properties) (hinner : inner ∈ p.type.objects) : inner ∈ t.objects := by
  induction t with
  | array element ih => exact ih ho
  | map element ih => exact ih ho
  | object type ih =>
    obtain ⟨name, properties⟩ := type
    rw [objects, ObjectType.innerObjects, propertyObjects_eq] at ho ⊢
    apply List.mem_cons_of_mem
    obtain rfl | ho := List.mem_cons.mp ho
    · exact List.mem_flatMap.mpr ⟨p, hp, hinner⟩
    · obtain ⟨q, hq, ho⟩ := List.mem_flatMap.mp ho
      exact List.mem_flatMap.mpr ⟨q, hq, ih q hq ho⟩
  | bool | int | float | string | custom | asset => cases ho

namespace CSharpLibrary

open Code

inductive TypeExpression where
  | word (text : String)
  | object (name : String)
  | generic (opening : String) (argument : TypeExpression)
  | nullable (type : TypeExpression)
  deriving DecidableEq, Repr

namespace TypeExpression

def render : TypeExpression → String
  | .word text => text
  | .object name => name
  | .generic opening argument => opening ++ argument.render ++ ">"
  | .nullable type => orNull type.render

def references : TypeExpression → List String
  | .word _ => []
  | .object name => [name]
  | .generic _ argument => argument.references
  | .nullable type => type.references

def ofOutput : TypeRef → TypeExpression
  | .bool => .word "bool"
  | .int => .word "int"
  | .float => .word "double"
  | .string => .word "string"
  | .custom _ => .word "string"
  | .array element => .generic "ImmutableArray<" (ofOutput element)
  | .map element => .generic "ImmutableDictionary<string, " (ofOutput element)
  | .object type => .object type.name
  | .asset kind => .word kind.className
  termination_by structural t => t

def ofInput : TypeRef → TypeExpression
  | .array element => .generic "InputList<" (ofOutput element)
  | .map element => .generic "InputMap<" (ofOutput element)
  | type => .generic "Input<" (ofOutput type)

def ofPlain : TypeRef → TypeExpression
  | .array element => .generic "List<" (ofPlain element)
  | .map element => .generic "Dictionary<string, " (ofPlain element)
  | .bool => .word "bool"
  | .int => .word "int"
  | .float => .word "double"
  | .string => .word "string"
  | .custom _ => .word "string"
  | .object type => .object type.name
  | .asset kind => .word kind.className
  termination_by structural t => t

/-- A type in output position that has `null` too; an array is empty instead. -/
def ofNullable : TypeRef → TypeExpression
  | .array element => ofOutput (.array element)
  | type => .nullable (ofOutput type)

def ofResult (p : Property) : TypeExpression := if p.optional then ofNullable p.type else ofOutput p.type

def ofUse (use : ArgumentUse) (type : TypeRef) : TypeExpression :=
  match use with
  | .resource => ofInput type
  | .invoke => ofPlain type

def ofArgument (use : ArgumentUse) (p : Property) : TypeExpression :=
  if p.optional then .nullable (ofUse use p.type) else ofUse use p.type

theorem render_ofOutput (t : TypeRef) : (ofOutput t).render = typeText t := by
  induction t with
  | array element ih => rw [ofOutput, render, ih, typeText_array]
  | map element ih => rw [ofOutput, render, ih, typeText_map]
  | bool | int | float | string | custom | asset | object => rfl

theorem render_ofInput (t : TypeRef) : (ofInput t).render = inputTypeText t := by
  cases t <;> simp only [ofInput, render, render_ofOutput, inputTypeText]

theorem render_ofPlain (t : TypeRef) : (ofPlain t).render = plainTypeText t := by
  induction t with
  | array element ih => rw [ofPlain, render, ih, plainTypeText_array]
  | map element ih => rw [ofPlain, render, ih, plainTypeText_map]
  | bool | int | float | string | custom | asset | object => rfl

theorem render_ofNullable (t : TypeRef) : (ofNullable t).render = nullableTypeText t := by
  cases t <;> simp only [ofNullable, render, render_ofOutput, nullableTypeText]

theorem render_ofResult (p : Property) : (ofResult p).render = outputTypeText p := by
  rw [ofResult, outputTypeText]
  split
  · exact render_ofNullable p.type
  · exact render_ofOutput p.type

theorem render_ofUse (use : ArgumentUse) (t : TypeRef) : (ofUse use t).render = use.typeText t := by
  cases use with
  | resource => exact render_ofInput t
  | invoke => exact render_ofPlain t

theorem references_ofOutput (t : TypeRef) :
    (ofOutput t).references = (t.innermost?.map ObjectType.name).toList := by
  induction t with
  | array element ih => exact ih
  | map element ih => exact ih
  | bool | int | float | string | custom | asset | object => rfl

theorem references_ofPlain (t : TypeRef) :
    (ofPlain t).references = (t.innermost?.map ObjectType.name).toList := by
  induction t with
  | array element ih => exact ih
  | map element ih => exact ih
  | bool | int | float | string | custom | asset | object => rfl

theorem references_ofUse (use : ArgumentUse) (t : TypeRef) :
    (ofUse use t).references = (t.innermost?.map ObjectType.name).toList := by
  cases use with
  | resource => cases t <;> exact references_ofOutput _
  | invoke => exact references_ofPlain t

theorem references_ofNullable (t : TypeRef) :
    (ofNullable t).references = (t.innermost?.map ObjectType.name).toList := by
  cases t <;> exact references_ofOutput _

theorem references_ofResult (p : Property) :
    (ofResult p).references = (p.type.innermost?.map ObjectType.name).toList := by
  rw [ofResult]
  split
  · exact references_ofNullable p.type
  · exact references_ofOutput p.type

theorem references_ofArgument (use : ArgumentUse) (p : Property) :
    (ofArgument use p).references = (p.type.innermost?.map ObjectType.name).toList := by
  rw [ofArgument]
  split <;> exact references_ofUse use p.type

end TypeExpression

def StandsIn (e : TypeExpression) (steps : List Step) : Prop :=
  ∃ before after, Step.line (before ++ e.render ++ after) ∈ steps

structure TypedClass where
  code : ClassCode
  types : List TypeExpression
  stands : ∀ e ∈ types, StandsIn e code.steps

def TypedClass.references (c : TypedClass) : List String := c.types.flatMap TypeExpression.references

theorem StandsIn.of_subset {e : TypeExpression} {steps steps' : List Step} (h : StandsIn e steps)
    (hsub : steps ⊆ steps') :
    StandsIn e steps' := by
  obtain ⟨before, after, hmem⟩ := h
  exact ⟨before, after, hsub hmem⟩

theorem subset_blockBelow (header : String) (body : List Step) : body ⊆ blockBelow header body := by
  intro step hstep
  simp [blockBelow, braceBlock, nested, hstep]

theorem subset_flatMap {α : Type} {f : α → List Step} {items : List α} {a : α} (ha : a ∈ items) :
    f a ⊆ items.flatMap f :=
  fun _ hstep => List.mem_flatMap.mpr ⟨a, ha, hstep⟩

theorem standsIn_argumentProperty (use : ArgumentUse) (className : String) (p : Property) :
    StandsIn (.ofArgument use p) (argumentProperty use className p) := by
  have hrender := TypeExpression.render_ofUse use p.type
  unfold argumentProperty TypeExpression.ofArgument
  cases p.optional
  · exact ⟨"public ", " " ++ propertyName p.name className ++ " " ++ braced " get; set; " ++ " = null!;", by
      simp [hrender, line, toString, String.append_assoc]⟩
  · exact ⟨"public ", " " ++ propertyName p.name className ++ " " ++ braced " get; set; ", by
      simp [hrender, line, toString, String.append_assoc, TypeExpression.render]⟩

def typedArgumentClass (use : ArgumentUse) (name doc : String) (ps : List Property) : TypedClass where
  code := argumentClass use name doc ps
  types := ps.map (.ofArgument use)
  stands := by
    intro e he
    obtain ⟨p, hp, rfl⟩ := List.mem_map.mp he
    refine (standsIn_argumentProperty use name p).of_subset (fun step hstep => ?_)
    exact List.mem_append_right _ (subset_blockBelow _ _ (List.mem_append_left _ (subset_flatMap hp hstep)))

def typedResultClass (name doc : String) (ps : List Property) : TypedClass where
  code := resultClass name doc ps
  types := ps.map .ofResult
  stands := by
    intro e he
    obtain ⟨p, hp, rfl⟩ := List.mem_map.mp he
    have hproperty : StandsIn (.ofResult p)
        (summary p.doc ++ line s!"public readonly {outputTypeText p} {propertyName p.name name};") :=
      ⟨"public readonly ", " " ++ propertyName p.name name ++ ";", by
        simp [TypeExpression.render_ofResult, line, toString, String.append_assoc]⟩
    refine hproperty.of_subset (fun step hstep => ?_)
    refine List.mem_append_right _ (subset_blockBelow _ _ ?_)
    simp only [List.append_assoc]
    exact List.mem_append_left _ (List.mem_flatMap.mpr ⟨p, hp, hstep⟩)

def typedObjectClass (use : ArgumentUse) : Position × ObjectType → TypedClass
  | (.input, o) => typedArgumentClass use o.name "" o.properties
  | (.output, o) => typedResultClass o.name "" o.properties

def typedResourceClass (r : Resource) : TypedClass where
  code := ResourceFile.resourceClass r
  types := r.outputs.map .ofResult
  stands := by
    intro e he
    obtain ⟨p, hp, rfl⟩ := List.mem_map.mp he
    have houtput : StandsIn (.ofResult p) (ResourceFile.output r p) :=
      ⟨"public Output<", "> " ++ propertyName p.name r.name ++ " " ++
        braced " get; private set; " ++ " = null!;", by
        simp [ResourceFile.output, TypeExpression.render_ofResult, line, toString, String.append_assoc]⟩
    refine houtput.of_subset (fun step hstep => ?_)
    refine List.mem_append_right _ (subset_blockBelow _ _ ?_)
    simp only [List.append_assoc]
    exact List.mem_append_left _ (List.mem_flatMap.mpr ⟨p, hp, hstep⟩)

def typedInvokeClass (f : DataSource) : TypedClass where
  code := DataSourceFile.invokeClass f
  types := []
  stands := by simp

def TypeExpression.ofVariable (v : Property) : TypeExpression :=
  if v.optional && !ConfigFile.hasLiteral v then .ofNullable v.type else .ofOutput v.type

/-- The types of a configuration variable: that of its property, and that of what is read for it
unless it is a scalar. -/
def variableTypes (v : Property) : List TypeExpression :=
  .ofVariable v :: if v.type.isPrimitive then [] else [.ofOutput v.type]

theorem TypeExpression.references_ofVariable (v : Property) :
    (TypeExpression.ofVariable v).references = (v.type.innermost?.map ObjectType.name).toList := by
  rw [ofVariable]
  split
  · exact references_ofNullable v.type
  · exact references_ofOutput v.type

theorem reader_eq {v : Property} (h : v.type.isPrimitive = false) :
    ConfigFile.reader v = (if v.optional then "Get" else "Require") ++
      ("Object<" ++ typeText v.type ++ ">") := by
  unfold ConfigFile.reader
  cases htype : v.type with
  | bool | int | float | string =>
    rw [htype] at h
    cases h
  | array | map | object | custom | asset => rfl

theorem TypeExpression.render_ofVariable (v : Property) : (TypeExpression.ofVariable v).render =
    if v.optional && !ConfigFile.hasLiteral v then nullableTypeText v.type else typeText v.type := by
  rw [ofVariable]
  split
  · exact render_ofNullable v.type
  · exact render_ofOutput v.type

/-- The property of a variable has its type in front of its name, and behind that what is read. -/
theorem accessor_eq (v : Property) : ∃ rest, ConfigFile.accessor v = summary v.doc ++
    line ("public static " ++ (TypeExpression.ofVariable v).render ++ " " ++
      propertyName v.name ConfigFile.className ++ " " ++
      braced " get; set; " ++ " = __config." ++ ConfigFile.reader v ++ rest) := by
  have hread : " = " ++ "__config." = " = __config." := rfl
  unfold ConfigFile.accessor
  rw [TypeExpression.render_ofVariable]
  cases defaultText? v with
  | none =>
    refine ⟨"(" ++ Json.quoted v.name ++ ");", ?_⟩
    simp only [toString, ← hread, String.append_assoc]
    rfl
  | some default =>
    refine ⟨"(" ++ Json.quoted v.name ++ ")" ++ " ?? " ++ default ++ ";", ?_⟩
    simp only [toString, ← hread, String.append_assoc]

theorem standsIn_accessor {v : Property} {e : TypeExpression} (he : e ∈ variableTypes v) :
    StandsIn e (ConfigFile.accessor v) := by
  obtain ⟨rest, haccessor⟩ := accessor_eq v
  rw [haccessor]
  obtain rfl | he := List.mem_cons.mp he
  · exact ⟨"public static ", " " ++ propertyName v.name ConfigFile.className ++ " " ++ braced " get; set; " ++
      " = __config." ++ ConfigFile.reader v ++ rest, by simp [line, String.append_assoc]⟩
  · split at he
    · cases he
    · next hscalar =>
      obtain rfl := List.mem_singleton.mp he
      rw [reader_eq (by simpa using hscalar)]
      exact ⟨"public static " ++ (TypeExpression.ofVariable v).render ++ " " ++
        propertyName v.name ConfigFile.className ++
        " " ++ braced " get; set; " ++ " = __config." ++ (if v.optional then "Get" else "Require") ++
          "Object<", ">" ++ rest,
        by simp [line, TypeExpression.render_ofOutput, String.append_assoc]⟩

def typedConfigClass (package : String) (vs : List Property) : TypedClass where
  code := (configFile package vs).classes.headD default
  types := vs.flatMap variableTypes
  stands := by
    intro e he
    obtain ⟨v, hv, he⟩ := List.mem_flatMap.mp he
    refine (standsIn_accessor he).of_subset (fun step hstep => subset_blockBelow _ _ ?_)
    exact List.mem_append_right _ (List.mem_flatMap.mpr ⟨v, hv, List.mem_append_right _ hstep⟩)

/-- A source file with the types that stand in its classes. -/
structure TypedFile where
  file : ClassFile
  classes : List TypedClass
  code_classes : classes.map TypedClass.code = file.source.classes

namespace TypedFile

def references (f : TypedFile) : List String := f.classes.flatMap TypedClass.references

def utilities (p : Package) : TypedFile where
  file := utilitiesFile p
  classes := [⟨Utilities.utilitiesClass p.version, [], by simp⟩]
  code_classes := rfl

def config (package : String) (vs : List Property) : TypedFile where
  file := .ofSource (moduleDirectory configModule) (configFile package vs)
  classes := [typedConfigClass package vs]
  code_classes := rfl

def objectClasses (use : ArgumentUse) (ps : List Property) : List TypedClass :=
  (firstByName [] (nestedObjects ps)).map (typedObjectClass use)

theorem map_code_objectClasses (use : ArgumentUse) (ps : List Property) :
    (objectClasses use ps).map TypedClass.code = CSharpLibrary.objectClasses use ps := by
  have hclass (o : Position × ObjectType) : (typedObjectClass use o).code = objectClass use o := by
    obtain ⟨position, o⟩ := o
    cases position <;> rfl
  rw [objectClasses, CSharpLibrary.objectClasses, List.map_map]
  exact List.map_congr_left (fun o _ => hclass o)

def resource (package module : String) (r : Resource) : TypedFile where
  file := .ofSource (moduleDirectory module) (resourceFile package module r)
  classes := [typedResourceClass r, typedArgumentClass .resource r.argsTypeName
    s!"The set of arguments for constructing a {r.name} resource." r.inputs] ++
      objectClasses .resource (r.inputs ++ r.outputs)
  code_classes := by
    rw [List.map_append, map_code_objectClasses]
    rfl

def dataSource (package module : String) (f : DataSource) : TypedFile where
  file := .ofSource (moduleDirectory module) (dataSourceFile package module f)
  classes := [typedInvokeClass f,
    typedArgumentClass .invoke f.argsTypeName s!"A collection of arguments for invoking {f.name}."
      f.arguments,
    typedResultClass f.resultTypeName s!"A collection of values returned by {f.name}." f.results] ++
      objectClasses .invoke (f.arguments ++ f.results)
  code_classes := by
    rw [List.map_append, map_code_objectClasses]
    rfl

def ofMember? (package module : String) : Member → Option TypedFile
  | .resource r => some (resource package module r)
  | .dataSource f => some (dataSource package module f)
  | _ => none

def ofModule (package : String) (m : Module) : List TypedFile :=
  (if m.configVariables.isEmpty then [] else [config package m.configVariables]) ++
    m.members.filterMap (ofMember? package m.name)

def ofPackage (p : Package) : List TypedFile := utilities p :: p.modules.flatMap (ofModule p.name)

theorem map_file_ofPackage (p : Package) : (ofPackage p).map TypedFile.file = packageFiles p := by
  have hmember (package module : String) (member : Member) :
      (ofMember? package module member).map TypedFile.file = memberFile? package module member := by
    cases member <;> rfl
  have hmodule (m : Module) : (ofModule p.name m).map TypedFile.file = moduleFiles p.name m := by
    rw [ofModule, moduleFiles, List.map_append, List.map_filterMap, funext (hmember p.name m.name)]
    split <;> rfl
  rw [ofPackage, packageFiles, List.map_cons, List.map_flatMap, funext hmodule]
  rfl

end TypedFile

variable {ps : List Property} {name : String}

theorem mem_propertyObjects_of_innermost? {q : Property} (hq : q ∈ ps) {o : ObjectType}
    (h : q.type.innermost? = some o) :
    o ∈ propertyObjects ps := by
  rw [propertyObjects_eq]
  exact List.mem_flatMap.mpr ⟨q, hq, TypeRef.mem_objects_of_innermost? h⟩

theorem exists_innermost?_of_mem {expression : Property → TypeExpression}
    (hexpression : ∀ q, (expression q).references = (q.type.innermost?.map ObjectType.name).toList)
    (h : name ∈ (ps.map expression).flatMap TypeExpression.references) :
    ∃ q ∈ ps, ∃ o, q.type.innermost? = some o ∧ o.name = name := by
  obtain ⟨e, he, hname⟩ := List.mem_flatMap.mp h
  obtain ⟨q, hq, rfl⟩ := List.mem_map.mp he
  rw [hexpression, Option.mem_toList, Option.map_eq_some_iff] at hname
  exact ⟨q, hq, hname⟩

theorem exists_object_of_mem_references {expression : Property → TypeExpression}
    (hexpression : ∀ q, (expression q).references = (q.type.innermost?.map ObjectType.name).toList)
    (h : name ∈ (ps.map expression).flatMap TypeExpression.references) :
    ∃ o ∈ propertyObjects ps, o.name = name := by
  obtain ⟨q, hq, o, ho, hname⟩ := exists_innermost?_of_mem hexpression h
  exact ⟨o, mem_propertyObjects_of_innermost? hq ho, hname⟩

theorem exists_object_of_mem_objectClasses {use : ArgumentUse}
    (h : name ∈ (TypedFile.objectClasses use ps).flatMap TypedClass.references) :
    ∃ o ∈ propertyObjects ps, o.name = name := by
  obtain ⟨c, hc, hname⟩ := List.mem_flatMap.mp h
  obtain ⟨⟨position, type⟩, hkept, rfl⟩ := List.mem_map.mp hc
  have hinner : ∃ q ∈ type.properties, ∃ o, q.type.innermost? = some o ∧ o.name = name := by
    cases position with
    | input => exact exists_innermost?_of_mem (TypeExpression.references_ofArgument use) hname
    | output => exact exists_innermost?_of_mem TypeExpression.references_ofResult hname
  obtain ⟨q, hq, o, ho, hname⟩ := hinner
  refine ⟨o, ?_, hname⟩
  obtain ⟨p, hp, hmem⟩ := List.mem_flatMap.mp ((firstByName_sublist [] _).subset hkept)
  obtain ⟨type', htype, heq⟩ := List.mem_map.mp hmem
  cases heq
  rw [propertyObjects_eq]
  exact List.mem_flatMap.mpr ⟨p, hp, TypeRef.objects_trans htype hq (TypeRef.mem_objects_of_innermost? ho)⟩

theorem exists_mem_propertyObjects_append {ps qs : List Property} {P : ObjectType → Prop} :
    (∃ o ∈ propertyObjects (ps ++ qs), P o) ↔
      (∃ o ∈ propertyObjects ps, P o) ∨ ∃ o ∈ propertyObjects qs, P o := by
  simp only [propertyObjects_eq, List.flatMap_append, List.mem_append, or_and_right, exists_or]

theorem exists_object_of_mem_memberFile {package module : String} {member : Member} {f : TypedFile}
    (hf : TypedFile.ofMember? package module member = some f) (hname : name ∈ f.references) :
    ∃ o ∈ propertyObjects (ownProperties member), o.name = name := by
  cases member with
  | resource r =>
    cases hf
    rw [TypedFile.references, TypedFile.resource, List.flatMap_append, List.mem_append] at hname
    obtain hname | hname := hname
    · obtain ⟨c, hc, hname⟩ := List.mem_flatMap.mp hname
      obtain rfl | rfl : c = _ ∨ c = _ := by simpa using hc
      · exact exists_mem_propertyObjects_append.mpr
          (.inr (exists_object_of_mem_references TypeExpression.references_ofResult hname))
      · exact exists_mem_propertyObjects_append.mpr
          (.inl (exists_object_of_mem_references (TypeExpression.references_ofArgument _) hname))
    · exact exists_object_of_mem_objectClasses hname
  | dataSource d =>
    cases hf
    rw [TypedFile.references, TypedFile.dataSource, List.flatMap_append, List.mem_append] at hname
    obtain hname | hname := hname
    · obtain ⟨c, hc, hname⟩ := List.mem_flatMap.mp hname
      obtain rfl | rfl | rfl : c = _ ∨ c = _ ∨ c = _ := by simpa using hc
      · cases hname
      · exact exists_mem_propertyObjects_append.mpr
          (.inl (exists_object_of_mem_references (TypeExpression.references_ofArgument _) hname))
      · exact exists_mem_propertyObjects_append.mpr
          (.inr (exists_object_of_mem_references TypeExpression.references_ofResult hname))
    · exact exists_object_of_mem_objectClasses hname
  | _ => cases hf

theorem file_ofMember? {package module : String} {member : Member} {f : TypedFile}
    (hf : TypedFile.ofMember? package module member = some f) :
    memberFile? package module member = some f.file := by
  cases member <;> cases hf <;> rfl

theorem declared_of_mem_memberFile {package module : String} {member : Member} {f : TypedFile}
    (hf : TypedFile.ofMember? package module member = some f) (hname : name ∈ f.references) :
    name ∈ f.file.declares := by
  rw [declares_memberFile (file_ofMember? hf), List.mem_append, mem_objectNames]
  exact .inr (exists_object_of_mem_memberFile hf hname)

/-- The file of configuration variables refers to the object types that the variables are made of. -/
theorem mem_references_config {package : String} {vs : List Property} :
    name ∈ (TypedFile.config package vs).references ↔
      ∃ v ∈ vs, ∃ o, v.type.innermost? = some o ∧ o.name = name := by
  have hvariable (v : Property) : name ∈ (variableTypes v).flatMap TypeExpression.references ↔
      ∃ o, v.type.innermost? = some o ∧ o.name = name := by
    rw [variableTypes, List.flatMap_cons, List.mem_append, TypeExpression.references_ofVariable,
      Option.mem_toList, Option.map_eq_some_iff]
    refine ⟨fun h => h.elim id (fun hread => ?_), .inl⟩
    split at hread
    · cases hread
    · simpa [TypeExpression.references_ofOutput] using hread
  have hall : (TypedFile.config package vs).references =
      vs.flatMap (fun v => (variableTypes v).flatMap TypeExpression.references) := by
    simp only [TypedFile.references, TypedFile.config, TypedClass.references, typedConfigClass,
      List.flatMap_cons, List.flatMap_nil, List.append_nil, List.flatMap_assoc]
  rw [hall, List.mem_flatMap]
  simp only [hvariable]

/-- Whatever a file of a package refers to is declared by some file of its namespace. -/
def ReferencesClosed (p : Package) : Prop :=
  ∀ f ∈ TypedFile.ofPackage p, ∀ name ∈ f.references, ∃ g ∈ TypedFile.ofPackage p,
    g.file.source.scope = f.file.source.scope ∧ name ∈ g.file.declares

variable {p : Package}

theorem mem_ofPackage {f : TypedFile} : f ∈ TypedFile.ofPackage p ↔ f = TypedFile.utilities p ∨
    ∃ m ∈ p.modules, (m.configVariables ≠ [] ∧ f = TypedFile.config p.name m.configVariables) ∨
      ∃ member ∈ m.members, TypedFile.ofMember? p.name m.name member = some f := by
  rw [TypedFile.ofPackage, List.mem_cons, List.mem_flatMap]
  refine or_congr_right (exists_congr (fun m => and_congr_right (fun _ => ?_)))
  rw [TypedFile.ofModule, List.mem_append, List.mem_filterMap]
  refine or_congr_left ?_
  split
  · next hnone => simp [List.isEmpty_iff.mp hnone]
  · next hsome => simp [List.isEmpty_iff.not.mp hsome]

theorem referencesClosed_iff : ReferencesClosed p ↔ ∀ m ∈ p.modules, ∀ v ∈ m.configVariables,
    ∀ o, v.type.innermost? = some o → ∃ g ∈ TypedFile.ofPackage p,
      g.file.source.scope = rootNamespace p.name ∧ o.name ∈ g.file.declares := by
  constructor
  · intro hclosed m hm v hv o ho
    have hconfig : TypedFile.config p.name m.configVariables ∈ TypedFile.ofPackage p :=
      mem_ofPackage.mpr (.inr ⟨m, hm, .inl ⟨List.ne_nil_of_mem hv, rfl⟩⟩)
    exact hclosed _ hconfig o.name (mem_references_config.mpr ⟨v, hv, o, ho, rfl⟩)
  · intro hvariables f hf name hname
    -- Files of members declare what they refer to themselves; only the configuration is left to others.
    obtain rfl | ⟨m, hm, ⟨-, rfl⟩ | ⟨member, -, hfile⟩⟩ := mem_ofPackage.mp hf
    · cases hname
    · obtain ⟨v, hv, o, ho, rfl⟩ := mem_references_config.mp hname
      exact hvariables m hm v hv o ho
    · exact ⟨f, hf, rfl, declared_of_mem_memberFile hfile hname⟩

theorem mem_resolved_config {disk : Disk} {document : Document} {options : RunOptions} {m : Module}
    (hm : m ∈ (Compilation.assembled disk document options).1.modules) {v : Property}
    (hv : v ∈ m.configVariables) :
    v ∈ (Compilation.resolution disk document options).resolved.config := by
  obtain ⟨v', hv', hvariable⟩ | ⟨r, -, hvariable⟩ | ⟨f, -, hvariable⟩ | ⟨file, hvariable⟩ :=
    Compilation.cases_of_mem_assembled (Package.mem_placed_of_mem_configVariables hm hv)
  · cases hvariable
    exact hv'
  all_goals cases hvariable

/-- The object type of a configuration variable is named after the key alone. -/
theorem name_of_innermost?_config {disk : Disk} {document : Document} {options : RunOptions} {v : Property}
    (hv : v ∈ (Compilation.resolution disk document options).resolved.config) {o : ObjectType}
    (ho : v.type.innermost? = some o) : o.name = objectWord v.rawName := by
  rw [document.config_namedByPaths _ v hv _ o (TypeRef.mem_objectsOnPaths_of_innermost? ho v.rawName),
    pathName_singleton, objectTypeName, objectWord]
  simp

/-- If the library of an assembled package can be planned, the file of every resource and data
source declares all classes of object types that its types refer to. The references of the library
are closed exactly if, for every configuration variable made of objects, some file of the package's
namespace declares a class that is named after its key. -/
theorem run_references_closed_iff (disk : Disk) (document : Document) (options : RunOptions) {c : Compilation}
    {plan : Plan} (hrun : Compilation.run disk document options = .ok c) (hpackage : c.package = some p)
    (hplan : CSharpLibrary.plan p = .ok plan) :
    plan.files.Perm (projectFiles p ++ (TypedFile.ofPackage p).map (fun f => f.file.planned)) ∧
      (∀ m ∈ p.modules, ∀ member ∈ m.members, ∀ f, TypedFile.ofMember? p.name m.name member = some f →
        ∀ name ∈ f.references, name ∈ f.file.declares) ∧
      (ReferencesClosed p ↔ ∀ m ∈ p.modules, ∀ v ∈ m.configVariables, v.type.innermost?.isSome →
        ∃ g ∈ TypedFile.ofPackage p, g.file.source.scope = rootNamespace p.name ∧
          objectWord v.rawName ∈ g.file.declares) := by
  cases Compilation.eq_finished_of_run disk document options hrun
  cases hpackage
  refine ⟨?_, fun m _ member _ f hf name hname => declared_of_mem_memberFile hf hname, ?_⟩
  · have hfiles := (files_plan hplan).1
    rwa [← TypedFile.map_file_ofPackage, List.map_map] at hfiles
  · rw [referencesClosed_iff]
    refine forall₂_congr (fun m hm => forall₂_congr (fun v hv => ?_))
    have hname {o : ObjectType} (ho : v.type.innermost? = some o) : o.name = objectWord v.rawName :=
      name_of_innermost?_config (mem_resolved_config hm hv) ho
    constructor
    · intro h hsome
      obtain ⟨o, ho⟩ := Option.isSome_iff_exists.mp hsome
      rw [← hname ho]
      exact h o ho
    · intro h o ho
      rw [hname ho]
      exact h (Option.isSome_iff_exists.mpr ⟨o, ho⟩)

theorem groupDocument_references_closed :
    ∃ c plan, Compilation.run default groupDocument (Compilation.plainSettings.runOptions (some .dotnet)) =
      .ok c ∧
      c.package = some (Compilation.plainPackage groupDocument .dotnet) ∧
      CSharpLibrary.plan (Compilation.plainPackage groupDocument .dotnet) = .ok plan ∧
      (TypedFile.ofPackage (Compilation.plainPackage groupDocument .dotnet)).map TypedFile.references =
        [[], [], [], ["HostGroup", "HostArgsGroup"], []] ∧
      ReferencesClosed (Compilation.plainPackage groupDocument .dotnet) := by
  have hrun :=
    Compilation.run_eq_finished default groupDocument (Compilation.plainSettings.runOptions (some .dotnet))
    (by decide)
  obtain ⟨plan, hplan⟩ : ∃ plan, CSharpLibrary.plan (Compilation.plainPackage groupDocument .dotnet) =
      .ok plan :=
    exists_ok_of_toBool (by decide +kernel)
  obtain ⟨-, -, hiff⟩ := run_references_closed_iff (p := Compilation.plainPackage groupDocument .dotnet)
    default groupDocument _ hrun rfl hplan
  have hnone : ∀ m ∈ (Compilation.plainPackage groupDocument .dotnet).modules, ∀ v ∈ m.configVariables,
      v.type.innermost?.isSome = false := by decide +kernel
  refine ⟨_, plan, hrun, rfl, hplan, by decide +kernel, hiff.mpr (fun m hm v hv hsome => ?_)⟩
  rw [hnone m hm v hv] at hsome
  cases hsome

def endpointsDocument : Document where
  name := "acme"
  provider := {
    config := [("endpoints", .collection .list (.object [("url", .scalar .string { optional := true })])
      { optional := true })]
    resources := [("acme_host", [("size", .scalar .int { optional := true })])] }
  resources := [("acme_host", { token := "acme:index:Host" })]

/-- The library is planned, and the file of the configuration refers to a class that no file declares. -/
theorem endpointsDocument_not_closed :
    (∃ warnings, endpointsDocument.prepare default Compilation.plainSettings .dotnet =
        .ok ⟨Compilation.plainPackage endpointsDocument .dotnet, warnings⟩) ∧
      (∃ plan, CSharpLibrary.plan (Compilation.plainPackage endpointsDocument .dotnet) = .ok plan) ∧
      (TypedFile.ofPackage (Compilation.plainPackage endpointsDocument .dotnet)).map
        (fun f => (f.references, f.file.declares)) =
          [([], ["Utilities"]), (["Endpoint", "Endpoint"], ["Config"]),
            (["ProviderArgsEndpoint"], ["Provider", "ProviderArgs", "ProviderArgsEndpoint"]),
            ([], ["Host", "HostArgs"])] ∧
      ¬ ReferencesClosed (Compilation.plainPackage endpointsDocument .dotnet) := by
  refine ⟨Compilation.exists_prepared default endpointsDocument (by decide) (by decide +kernel),
    exists_ok_of_toBool (by decide +kernel), by decide +kernel, ?_⟩
  unfold ReferencesClosed
  decide +kernel

end CSharpLibrary

end ProviderSdk
