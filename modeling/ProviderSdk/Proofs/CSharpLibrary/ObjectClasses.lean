import ProviderSdk.Proofs.CSharpLibrary.Classes
import ProviderSdk.Proofs.Compile.ObjectPaths

/-!
# Classes of object types

Of object types with one name only the first gets a class. So one is lost exactly if there is
another object type of its name that differs from it. Names come from paths; if all keys on paths
are spelled out of words that begin with letters, two object types have one name exactly if their
paths have the same words, which keys of different length or number can have.
-/

namespace ProviderSdk.CSharpLibrary

/-- An object type inside the types of properties, with the position of its property and the path to it. -/
structure PlacedObject where
  position : Position
  path : List String
  type : ObjectType

/-- The words of its name behind those of the owner. -/
def PlacedObject.spelling (o : PlacedObject) : List (List Char) := ProviderSdk.spelling o.position o.path

def placedObjects (ps : List Property) : List PlacedObject :=
  ps.flatMap (fun p => (p.type.objectsOnPaths p.rawName).map (fun (path, o) => ⟨p.position, path, o⟩))

variable {ps : List Property}

theorem nestedObjects_eq (ps : List Property) :
    nestedObjects ps = (placedObjects ps).map (fun o => (o.position, o.type)) := by
  have hproperty (p : Property) : p.type.objects.map (fun o => (p.position, o)) =
      ((p.type.objectsOnPaths p.rawName).map (fun (path, o) => (⟨p.position, path, o⟩ : PlacedObject))).map
        (fun o => (o.position, o.type)) := by
    rw [List.map_map, ← TypeRef.map_snd_objectsOnPaths p.rawName, List.map_map]
    rfl
  rw [nestedObjects, placedObjects, List.map_flatMap]
  exact List.flatMap_congr (fun p _ => hproperty p)

theorem NamedByPaths.name_eq {owner : String} (h : NamedByPaths owner ps) {o : PlacedObject}
    (ho : o ∈ placedObjects ps) :
    o.type.name = pathName o.position owner o.path := by
  obtain ⟨p, hp, ho⟩ := List.mem_flatMap.mp ho
  obtain ⟨⟨path, type⟩, hmem, rfl⟩ := List.mem_map.mp ho
  exact h p hp path type hmem

theorem firstByName_sublist (known : List String) (objects : List (Position × ObjectType)) :
    (firstByName known objects).Sublist objects := by
  induction objects generalizing known with
  | nil => exact .slnil
  | cons first rest ih =>
    obtain ⟨position, o⟩ := first
    rw [firstByName]
    split
    · exact (ih known).cons _
    · exact (ih _).cons_cons _

/-- Every object type is the first of its name exactly if no two of one name differ. -/
theorem forall_mem_firstByName_iff {objects : List (Position × ObjectType)} :
    (∀ o ∈ objects, o ∈ firstByName [] objects) ↔
      ∀ o ∈ objects, ∀ o' ∈ objects, o.2.name = o'.2.name → o = o' := by
  constructor
  · intro h o ho o' ho' hname
    exact List.inj_on_of_nodup_map (nodup_firstByName [] objects) (h o ho) (h o' ho') hname
  · intro h o ho
    have hkept : o.2.name ∈ (firstByName [] objects).map (fun o => o.2.name) :=
      mem_firstByName.mpr ⟨List.mem_map_of_mem ho, List.not_mem_nil⟩
    obtain ⟨o', hmem, hname⟩ := List.mem_map.mp hkept
    rw [h o ho o' ((firstByName_sublist [] objects).subset hmem) hname.symm]
    exact hmem

def className : Member → String
  | .resource r => r.name
  | .dataSource f => DataSourceFile.className f
  | _ => ""

/-- The words of the names of a member's own classes, behind those of its class. -/
def ownSpellings : Member → List (List (List Char))
  | .resource _ => [[], ["args".toList]]
  | .dataSource _ => [[], ["args".toList], ["result".toList]]
  | _ => []

theorem ownClasses_eq (member : Member) : ownClasses member = (ownSpellings member).map
    (fun words => className member ++ String.ofList (words.flatMap Text.capitalized)) := by
  have hargs : String.ofList (["args".toList].flatMap Text.capitalized) = "Args" := by decide +kernel
  have hresult : String.ofList (["result".toList].flatMap Text.capitalized) = "Result" := by decide +kernel
  have hnone : String.ofList (([] : List (List Char)).flatMap Text.capitalized) = "" := rfl
  cases member with
  | resource r =>
    simp only [ownClasses, ownSpellings, List.map_cons, List.map_nil, hnone, hargs, String.append_empty]
    rfl
  | dataSource f =>
    simp only [ownClasses, ownSpellings, List.map_cons, List.map_nil, hnone, hargs, hresult,
      String.append_empty]
    rfl
  | _ => rfl

theorem isLetterWord_ownSpellings {member : Member} {words : List (List Char)}
    (h : words ∈ ownSpellings member) :
    ∀ w ∈ words, Text.IsLetterWord w := by
  have hall : ∀ words ∈ [[], ["args".toList], ["result".toList]],
      ∀ w ∈ words, Text.IsLetterWord w := by decide
  refine hall words ?_
  cases member with
  | resource r =>
    obtain rfl | rfl : words = [] ∨ words = ["args".toList] := by simpa [ownSpellings] using h
    · simp
    · simp
  | dataSource f => exact h
  | _ => cases h

theorem pathName_mem_ownClasses_iff {member : Member} (howner : className member ≠ "") {position : Position}
    {path : List String} (h : ∀ key ∈ path, Spelled key) :
    pathName position (className member) path ∈ ownClasses member ↔
      spelling position path ∈ ownSpellings member := by
  have hname (words : List (List Char)) (hwords : words ∈ ownSpellings member) :
      className member ++ String.ofList (words.flatMap Text.capitalized) =
        pathName position (className member) path ↔
        words = spelling position path := by
    rw [← String.toList_inj, toList_pathName howner h, String.toList_append, String.toList_ofList,
      List.append_right_inj, Text.flatMap_capitalized_inj (isLetterWord_ownSpellings hwords)
        (isLetterWord_spelling h)]
  rw [ownClasses_eq, List.mem_map]
  constructor
  · rintro ⟨words, hwords, heq⟩
    rw [← (hname words hwords).mp heq]
    exact hwords
  · exact fun hmem => ⟨_, hmem, (hname _ hmem).mpr rfl⟩

/-- Every object type inside a resolved resource or data source is named after the class of this and
the path to it. All of them have their classes exactly if no two of one name differ. If all keys on
paths are spelled out of words, two object types have one name exactly if their paths have the same
words, and the name of an own class exactly if they have its words. -/
theorem resolution_keeps_objects_iff (disk : Disk) (document : Document) (options : RunOptions)
    {member : Member} (hmember : member ∈ (Compilation.resolution disk document options).resolved.members) :
    (∀ o ∈ placedObjects (ownProperties member),
      o.type.name = pathName o.position (className member) o.path) ∧
      ((∀ o ∈ placedObjects (ownProperties member),
          (o.position, o.type) ∈ firstByName [] (nestedObjects (ownProperties member))) ↔
        ∀ o ∈ placedObjects (ownProperties member), ∀ o' ∈ placedObjects (ownProperties member),
          o.type.name = o'.type.name → o.position = o'.position ∧ o.type = o'.type) ∧
      (className member ≠ "" → (∀ o ∈ placedObjects (ownProperties member), ∀ key ∈ o.path, Spelled key) →
        (∀ o ∈ placedObjects (ownProperties member), ∀ o' ∈ placedObjects (ownProperties member),
          (o.type.name = o'.type.name ↔ o.spelling = o'.spelling)) ∧
        ∀ o ∈ placedObjects (ownProperties member),
          (o.type.name ∈ ownClasses member ↔ o.spelling ∈ ownSpellings member)) := by
  have hnamed : NamedByPaths (className member) (ownProperties member) := by
    have hpaths := Document.objectsOnPaths_of_mem_resolved hmember
    cases member with
    | resource r => exact hpaths
    | dataSource f => exact hpaths
    | _ => exact fun p hp => by cases hp
  refine ⟨fun o ho => NamedByPaths.name_eq hnamed ho, ?_,
    fun howner hspelled => ⟨fun o ho o' ho' => ?_, fun o ho => ?_⟩⟩
  · have hkept := @forall_mem_firstByName_iff (nestedObjects (ownProperties member))
    rw [nestedObjects_eq] at hkept ⊢
    simpa only [List.forall_mem_map, Prod.mk.injEq] using hkept
  · rw [NamedByPaths.name_eq hnamed ho, NamedByPaths.name_eq hnamed ho',
      pathName_inj howner (hspelled o ho) (hspelled o' ho')]
    rfl
  · rw [NamedByPaths.name_eq hnamed ho, pathName_mem_ownClasses_iff howner (hspelled o ho)]
    rfl

def nestedDocument : Document where
  name := "acme"
  provider := {
    resources := [("acme_host", [("groups", .collection .list (.object
      [("name", .scalar .string { optional := true }), ("rules", .collection .set (.object
        [("port", .scalar .int { optional := true })]) { optional := true })]) { optional := true })])] }
  resources := [("acme_host", { token := "acme:index:Host" })]

def resolvedMembers (d : Document) : List Member :=
  (Compilation.resolution default d (Compilation.plainSettings.runOptions (some .dotnet))).resolved.members

theorem nestedDocument_keeps_objects :
    (resolvedMembers nestedDocument).map (fun member => (placedObjects (ownProperties member)).map
      (fun o => (o.type.name, o.path))) =
        [[("HostArgsGroup", ["groups"]), ("HostGroupArgsRule", ["groups", "rules"]),
          ("HostGroup", ["groups"]), ("HostGroupRule", ["groups", "rules"])]] ∧
      ∀ member ∈ resolvedMembers nestedDocument, ∀ o ∈ placedObjects (ownProperties member),
        (o.position, o.type) ∈ firstByName [] (nestedObjects (ownProperties member)) ∧
          o.type.name ∉ ownClasses member := by
  refine ⟨by decide +kernel, fun member hmember => ?_⟩
  obtain ⟨-, hkept, hspelled⟩ := resolution_keeps_objects_iff default nestedDocument _ hmember
  have howner : ∀ member ∈ resolvedMembers nestedDocument, className member ≠ "" := by decide +kernel
  have hkeys : ∀ member ∈ resolvedMembers nestedDocument, ∀ o ∈ placedObjects (ownProperties member),
      ∀ key ∈ o.path, Spelled key := by decide +kernel
  have hdistinct : ∀ member ∈ resolvedMembers nestedDocument,
      ((placedObjects (ownProperties member)).map PlacedObject.spelling).Nodup := by decide +kernel
  have hapart : ∀ member ∈ resolvedMembers nestedDocument, ∀ o ∈ placedObjects (ownProperties member),
      o.spelling ∉ ownSpellings member := by decide +kernel
  obtain ⟨hnames, hown⟩ := hspelled (howner member hmember) (hkeys member hmember)
  have hsame : ∀ o ∈ placedObjects (ownProperties member), ∀ o' ∈ placedObjects (ownProperties member),
      o.type.name = o'.type.name → o.position = o'.position ∧ o.type = o'.type := by
    intro o ho o' ho' hname
    obtain rfl := List.inj_on_of_nodup_map (hdistinct member hmember) ho ho' ((hnames o ho o' ho').mp hname)
    exact ⟨rfl, rfl⟩
  intro o ho
  exact ⟨hkept.mpr hsame o ho, fun hmem => hapart member hmember o ho ((hown o ho).mp hmem)⟩

/-- A document with two lists of objects, the key of one being the singular of the other's. -/
def rulesDocument : Document where
  name := "acme"
  provider := {
    resources := [("acme_host",
      [("rule", .collection .list (.object [("port", .scalar .int { optional := true })])
        { optional := true }), ("rules", .collection .list (.object
          [("weight", .scalar .int { optional := true })]) { optional := true })])] }
  resources := [("acme_host", { token := "acme:index:Host" })]

/-- The library is planned, but two object types have one name and different properties, and only
the first of them has a class. -/
theorem rulesDocument_loses_object :
    (∃ warnings, rulesDocument.prepare default Compilation.plainSettings .dotnet =
        .ok ⟨Compilation.plainPackage rulesDocument .dotnet, warnings⟩) ∧
      (∃ plan, CSharpLibrary.plan (Compilation.plainPackage rulesDocument .dotnet) = .ok plan) ∧
      (resolvedMembers rulesDocument).map (fun member => (nestedObjects (ownProperties member)).map
        (fun o => (o.2.name, o.2.properties.map (·.name)))) =
          [[("HostArgsRule", ["port"]), ("HostArgsRule", ["weight"]), ("HostRule", ["port"]),
            ("HostRule", ["weight"])]] ∧
      (resolvedMembers rulesDocument).map (fun member =>
        (firstByName [] (nestedObjects (ownProperties member))).map
        (fun o => (o.2.name, o.2.properties.map (·.name)))) =
          [[("HostArgsRule", ["port"]), ("HostRule", ["port"])]] :=
  ⟨Compilation.exists_prepared default rulesDocument (by decide) (by decide +kernel),
    exists_ok_of_toBool (by decide +kernel), by decide +kernel, by decide +kernel⟩

end ProviderSdk.CSharpLibrary
