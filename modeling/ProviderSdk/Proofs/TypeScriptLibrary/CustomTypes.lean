import Mathlib.Data.List.Nodup
import ProviderSdk.Proofs.Disk.Paths
import ProviderSdk.Proofs.Package.Printable
import ProviderSdk.TypeScriptLibrary.Reference

/-!
# Custom types of TypeScript files

The names of custom types that stand in the types of properties, the imports of these names, one for
every file that they come from, and where the specifiers of the imports lead.
-/

namespace ProviderSdk.TypeScriptLibrary

open Code

def Imports (imports : List Import) (source name : String) : Prop :=
  ∃ i ∈ imports, i.source = source ∧ name ∈ i.names

/-- Imports of names, no two from one source and no name twice in one of them. -/
structure Grouped (imports : List Import) : Prop where
  sources : (imports.map Import.source).Nodup
  named : ∀ i ∈ imports, i.wholeName = none ∧ i.names ≠ [] ∧ i.names.Nodup

@[simp] theorem source_withName (i : Import) (name : String) : (i.withName name).source = i.source := by
  rw [Import.withName]
  split <;> rfl

@[simp] theorem wholeName_withName (i : Import) (name : String) :
    (i.withName name).wholeName = i.wholeName := by
  rw [Import.withName]
  split <;> rfl

@[simp] theorem mem_names_withName {i : Import} {name other : String} :
    other ∈ (i.withName name).names ↔ other ∈ i.names ∨ other = name := by
  rw [Import.withName]
  split
  · next h =>
    refine ⟨.inl, fun hother => hother.elim id ?_⟩
    rintro rfl
    simpa using h
  · simp

theorem nodup_names_withName {i : Import} (name : String) (h : i.names.Nodup) :
    (i.withName name).names.Nodup := by
  rw [Import.withName]
  split
  · exact h
  · next hnew => exact h.append (List.nodup_singleton _) (by simpa using hnew)

variable {imports : List Import} {source name : String}

theorem map_source_importName (source name : String) (imports : List Import) :
    (importName source name imports).map Import.source =
      if source ∈ imports.map Import.source then imports.map Import.source
        else imports.map Import.source ++ [source] := by
  induction imports with
  | nil => rfl
  | cons i rest ih =>
    rw [importName]
    split
    · next h => simp [h]
    · next h =>
      rw [List.map_cons, ih, List.map_cons]
      by_cases hmem : source ∈ rest.map Import.source
      · rw [if_pos hmem, if_pos (List.mem_cons_of_mem _ hmem)]
      · rw [if_neg hmem, if_neg (by simpa [Ne.symm h] using hmem), List.cons_append]

theorem mem_importName {i : Import} (h : i ∈ importName source name imports) :
    i ∈ imports ∨ (∃ j ∈ imports, i = j.withName name) ∨ i = { source := source, names := [name] } := by
  induction imports with
  | nil => exact .inr (.inr (List.mem_singleton.mp h))
  | cons first rest ih =>
    rw [importName] at h
    split at h
    · rcases List.mem_cons.mp h with rfl | h
      · exact .inr (.inl ⟨first, List.mem_cons_self, rfl⟩)
      · exact .inl (List.mem_cons_of_mem _ h)
    · rcases List.mem_cons.mp h with rfl | h
      · exact .inl List.mem_cons_self
      · rcases ih h with h | ⟨j, hj, rfl⟩ | rfl
        · exact .inl (List.mem_cons_of_mem _ h)
        · exact .inr (.inl ⟨j, List.mem_cons_of_mem _ hj, rfl⟩)
        · exact .inr (.inr rfl)

theorem Grouped.importName (h : Grouped imports) (source name : String) :
    Grouped (importName source name imports) := by
  constructor
  · rw [map_source_importName]
    split
    · exact h.sources
    · next hnew => exact h.sources.append (List.nodup_singleton _) (by simpa using hnew)
  · intro i hi
    rcases mem_importName hi with hi | ⟨j, hj, rfl⟩ | rfl
    · exact h.named i hi
    · obtain ⟨hwhole, -, hnodup⟩ := h.named j hj
      exact ⟨by simpa using hwhole, List.ne_nil_of_mem (mem_names_withName.mpr (.inr rfl)),
        nodup_names_withName name hnodup⟩
    · exact ⟨rfl, List.cons_ne_nil _ _, List.nodup_singleton _⟩

/-- A name more is imported, and nothing else. -/
theorem imports_importName {source' name' : String} : Imports (importName source name imports) source' name' ↔
    Imports imports source' name' ∨ (source' = source ∧ name' = name) := by
  induction imports with
  | nil => simp [Imports, importName, eq_comm]
  | cons i rest ih =>
    rw [importName]
    unfold Imports at ih ⊢
    split
    · next h =>
      subst h
      simp only [List.exists_mem_cons_iff, source_withName, mem_names_withName]
      grind
    · next h =>
      simp only [List.exists_mem_cons_iff, ih, or_assoc]

def LivesIn (module stem : String) (t : Token) : Prop := t.module = module ∧ tokenStem t = stem

instance (module stem : String) (t : Token) : Decidable (LivesIn module stem t) :=
  inferInstanceAs (Decidable (_ ∧ _))

def foreignTokens (module ownStem : String) (ps : List Property) : List Token :=
  (propertyTokens ps).filter (fun t => ¬ LivesIn module ownStem t)

theorem mem_foreignTokens {module ownStem : String} {ps : List Property} {t : Token} :
    t ∈ foreignTokens module ownStem ps ↔ t ∈ propertyTokens ps ∧ ¬ LivesIn module ownStem t := by
  simp [foreignTokens]

theorem customTypeImports_eq (module ownStem : String) (ps : List Property) :
    customTypeImports module ownStem ps = (foreignTokens module ownStem ps).foldl (fun imports t =>
      importName (specifier module t.module (tokenStem t)) t.name imports) [] := by
  rw [customTypeImports, foreignTokens, List.foldl_filter]
  refine congrArg (fun step => List.foldl step [] (propertyTokens ps)) (funext₂ (fun imports t => ?_))
  by_cases h : LivesIn module ownStem t
  · rw [if_neg (fun hforeign => absurd h (of_decide_eq_true hforeign))]
    exact if_pos h
  · rw [if_pos (decide_eq_true h)]
    exact if_neg h

theorem foldl_importName (sourceOf : Token → String) (tokens : List Token) (h : Grouped imports) :
    Grouped (tokens.foldl (fun imports t => importName (sourceOf t) t.name imports) imports) ∧
      ∀ source name,
        Imports (tokens.foldl (fun imports t => importName (sourceOf t) t.name imports) imports) source name ↔
        Imports imports source name ∨ ∃ t ∈ tokens, sourceOf t = source ∧ t.name = name := by
  induction tokens generalizing imports with
  | nil => exact ⟨h, by simp⟩
  | cons t rest ih =>
    obtain ⟨hgrouped, himports⟩ := ih (h.importName (sourceOf t) t.name)
    refine ⟨hgrouped, fun source name => ?_⟩
    rw [List.foldl_cons, himports, imports_importName, List.exists_mem_cons_iff, or_assoc,
      eq_comm (a := source), eq_comm (a := name)]

theorem customTypeImports_spec (module ownStem : String) (ps : List Property) :
    Grouped (customTypeImports module ownStem ps) ∧ ∀ source name,
      Imports (customTypeImports module ownStem ps) source name ↔
        ∃ t ∈ foreignTokens module ownStem ps, specifier module t.module (tokenStem t) = source ∧
          t.name = name := by
  rw [customTypeImports_eq]
  have hnone : Grouped [] := ⟨List.nodup_nil, by simp⟩
  obtain ⟨hgrouped, himports⟩ :=
    foldl_importName (fun t => specifier module t.module (tokenStem t))
      (foreignTokens module ownStem ps) hnone
  refine ⟨hgrouped, fun source name => ?_⟩
  rw [himports]
  simp [Imports]

/-- The place that a relative path leads to from another place. -/
def placeFrom (here : List String) (p : String) : List String := (Text.split '/' p).foldl placeBehind here

structure IsDirectoryName (module : String) : Prop where
  ne_empty : module ≠ ""
  not_slash : '/' ∉ module.toList
  not_dot : '.' ∉ module.toList

instance (module : String) : Decidable (IsDirectoryName module) :=
  decidable_of_iff (_ ∧ _ ∧ _) ⟨fun h => ⟨h.1, h.2.1, h.2.2⟩, fun h => ⟨h.1, h.2, h.3⟩⟩

theorem placeFrom_append (here : List String) (before after : String) :
    placeFrom here (before ++ "/" ++ after) = placeFrom (placeFrom here before) after := by
  rw [placeFrom, show "/" = String.singleton '/' from rfl, Text.split_append, List.foldl_append]
  rfl

theorem placeFrom_name {name : String} (h : '/' ∉ name.toList) (here : List String) :
    placeFrom here name = placeBehind here name := by
  rw [placeFrom, Text.split_of_not_mem h]
  rfl

theorem placeFrom_here (here : List String) (stem : String) :
    placeFrom here ("./" ++ stem) = placeFrom here stem := by
  rw [show ("./" : String) = "." ++ "/" from rfl, placeFrom_append]
  rfl

theorem placeFrom_up (here : List String) (stem : String) :
    placeFrom here ("../" ++ stem) = placeFrom here.dropLast stem := by
  rw [show ("../" : String) = ".." ++ "/" from rfl, placeFrom_append]
  rfl

theorem IsDirectoryName.placeFrom {module : String} (h : IsDirectoryName module) (here : List String) :
    placeFrom here module = here ++ [module] := by
  rw [placeFrom_name h.not_slash, placeBehind, if_neg, if_neg]
  · rintro rfl
    exact h.not_dot (by decide)
  · rintro (rfl | rfl)
    · exact h.ne_empty rfl
    · exact h.not_dot (by decide)

def modulePlace (here : List String) (module : String) : List String :=
  placeFrom here (moduleDirectory module).text

theorem modulePlace_root (here : List String) : modulePlace here rootModule = here := rfl

theorem modulePlace_of_ne_root {module : String} (hroot : module ≠ rootModule) (h : IsDirectoryName module)
    (here : List String) : modulePlace here module = here ++ [module] := by
  rw [modulePlace, moduleDirectory, if_neg hroot]
  exact h.placeFrom here

/-- From the directory of the importing file, a specifier leads to where the stem leads from the
directory of its module. -/
theorem placeFrom_specifier {fromModule toModule : String} (hfrom : IsDirectoryName fromModule)
    (hto : IsDirectoryName toModule) (here : List String) (stem : String) :
    placeFrom (modulePlace here fromModule) (specifier fromModule toModule stem) =
      placeFrom (modulePlace here toModule) stem := by
  have htop (rest : String) : placeFrom (modulePlace here fromModule)
      ((if fromModule = rootModule then "./" else "../") ++ rest) = placeFrom here rest := by
    by_cases hroot : fromModule = rootModule
    · rw [if_pos hroot, hroot, modulePlace_root, placeFrom_here]
    · rw [if_neg hroot, modulePlace_of_ne_root hroot hfrom, placeFrom_up, List.dropLast_concat]
  rw [specifier]
  by_cases hsame : fromModule = toModule
  · rw [if_pos hsame, hsame, placeFrom_here]
  rw [if_neg hsame]
  by_cases hroot : toModule = rootModule
  · rw [if_pos hroot, htop, hroot, modulePlace_root]
  · rw [if_neg hroot, String.append_assoc, String.append_assoc, htop, ← String.append_assoc, placeFrom_append,
      modulePlace_of_ne_root hroot hto, hto.placeFrom]

inductive Piece where
  | text (s : String)
  | typeName (name : String)
  deriving DecidableEq, Repr

def Piece.render : Piece → String
  | .text s => s
  | .typeName name => name

def rendered (pieces : List Piece) : String := String.join (pieces.map Piece.render)

def typeNames (pieces : List Piece) : List String :=
  pieces.filterMap (fun | .typeName name => some name | .text _ => none)

def nestedPieces (position : Position) (type : List Piece) : List Piece :=
  match position with
  | .output => type
  | .input => .text "pulumi.Input<" :: type ++ [.text ">"]

def arrayPieces (position : Position) (element : List Piece) : List Piece :=
  match position with
  | .output => if Text.contains (rendered element) " | " then .text "(" :: element ++ [.text ")[]"]
    else element ++ [.text "[]"]
  | .input => nestedPieces .input element ++ [.text "[]"]

def customPieces (position : Position) (type : CustomType) : List Piece :=
  match position with
  | .output => [.typeName type.token.name]
  | .input => .typeName type.token.name :: type.altTypes.flatMap (fun t => [.text " | ", .typeName t.name])

def joinedPieces : List (List Piece) → List Piece
  | [] => []
  | [member] => member
  | member :: rest => member ++ .text ", " :: joinedPieces rest

mutual

def typePieces (position : Position) : TypeRef → List Piece
  | .bool => [.text "boolean"]
  | .int => [.text "number"]
  | .float => [.text "number"]
  | .string => [.text "string"]
  | .array element => arrayPieces position (typePieces position element)
  | .map element =>
    .text (openBrace ++ "[key: string]: ") :: nestedPieces position (typePieces position element) ++
      [.text closeBrace]
  | .object type => objectPieces position type
  | .custom type => customPieces position type
  | .asset kind => [.text (assetText kind)]
  termination_by structural t => t

def objectPieces (position : Position) : ObjectType → List Piece
  | ⟨_, ps⟩ =>
    if ps.isEmpty then [.text (braced "")]
    else .text (openBrace ++ " ") :: joinedPieces (memberPieces position ps) ++ [.text (" " ++ closeBrace)]
  termination_by structural t => t

def memberPieces (position : Position) : List Property → List (List Piece)
  | [] => []
  | p :: rest => propertyPieces position p :: memberPieces position rest
  termination_by structural ps => ps

def propertyPieces (position : Position) : Property → List Piece
  | ⟨_, name, type, optional, _, _, _, _, _, _⟩ =>
    .text (name ++ optionalMark optional ++ ": ") :: nestedPieces position (typePieces position type)
  termination_by structural p => p

end

theorem memberPieces_eq (position : Position) (ps : List Property) :
    memberPieces position ps = ps.map (fun p =>
    .text (p.name ++ optionalMark p.optional ++ ": ") ::
      nestedPieces position (typePieces position p.type)) := by
  induction ps with
  | nil => rfl
  | cons p rest ih =>
    rw [memberPieces, ih]
    cases p
    rfl

theorem memberTexts_eq (ps : List Property) :
    memberTexts ps = ps.map (fun p => p.name ++ optionalMark p.optional ++ ": " ++ typeText p.type) := by
  induction ps with
  | nil => rfl
  | cons p rest ih =>
    rw [memberTexts, ih]
    cases p
    rfl

theorem inputMemberTexts_eq (ps : List Property) : inputMemberTexts ps =
    ps.map (fun p => p.name ++ optionalMark p.optional ++ ": " ++ inputOf (inputTypeText p.type)) := by
  induction ps with
  | nil => rfl
  | cons p rest ih =>
    rw [inputMemberTexts, ih]
    cases p
    rfl

theorem propertyTokens_eq (ps : List Property) :
    propertyTokens ps = ps.flatMap (fun p => customTokens p.type) := by
  induction ps with
  | nil => rfl
  | cons p rest ih =>
    rw [propertyTokens, ih]
    cases p
    rfl

def textAt : Position → TypeRef → String
  | .output => typeText
  | .input => inputTypeText

def nestedText : Position → String → String
  | .output => id
  | .input => inputOf

theorem textAt_map (position : Position) (element : TypeRef) :
    textAt position (.map element) = dictionaryOf (nestedText position (textAt position element)) := by
  cases position <;> rfl

theorem textAt_object (position : Position) (name : String) (ps : List Property) :
    textAt position (.object ⟨name, ps⟩) =
    objectOf (ps.map (fun p => p.name ++ optionalMark p.optional ++ ": " ++
      nestedText position (textAt position p.type))) := by
  cases position with
  | output => exact congrArg objectOf (memberTexts_eq ps)
  | input => exact congrArg objectOf (inputMemberTexts_eq ps)

@[simp] theorem rendered_nil : rendered [] = "" := rfl

@[simp] theorem rendered_cons (p : Piece) (ps : List Piece) :
    rendered (p :: ps) = p.render ++ rendered ps := by
  rw [rendered, List.map_cons, String.join_cons]
  rfl

@[simp] theorem rendered_append (ps qs : List Piece) : rendered (ps ++ qs) = rendered ps ++ rendered qs := by
  rw [rendered, List.map_append, String.join_append]
  rfl

@[simp] theorem rendered_nestedPieces (position : Position) (type : List Piece) :
    rendered (nestedPieces position type) = nestedText position (rendered type) := by
  cases position <;> simp [nestedPieces, nestedText, Piece.render, inputOf, String.append_assoc]

theorem rendered_joinedPieces (members : List (List Piece)) :
    rendered (joinedPieces members) = ", ".intercalate (members.map rendered) := by
  induction members with
  | nil => rfl
  | cons member rest ih =>
    cases rest with
    | nil => rfl
    | cons second rest =>
      rw [joinedPieces, rendered_append, rendered_cons, ih, List.map_cons, List.map_cons, List.map_cons,
        String.intercalate_cons_cons, String.append_assoc]
      · rfl
      · simp

theorem rendered_customPieces (position : Position) (type : CustomType) :
    rendered (customPieces position type) = textAt position (.custom type) := by
  cases position with
  | output => simp [customPieces, Piece.render, textAt, typeText]
  | input =>
    rw [customPieces, rendered_cons, textAt, inputTypeText]
    generalize type.token = main
    induction type.altTypes generalizing main with
    | nil => simp [Piece.render]
    | cons t rest ih =>
      rw [List.flatMap_cons, List.map_cons, String.intercalate_cons_cons, ← ih t]
      simp [Piece.render, String.append_assoc]

theorem rendered_arrayPieces (position : Position) {element : TypeRef} {pieces : List Piece}
    (h : rendered pieces = textAt position element) :
    rendered (arrayPieces position pieces) = textAt position (.array element) := by
  cases position with
  | output =>
    rw [arrayPieces, h, textAt, typeText, arrayOf]
    split <;> simp [Piece.render, h, textAt, String.append_assoc]
  | input =>
    rw [arrayPieces, rendered_append, rendered_nestedPieces, h]
    rfl

theorem rendered_typePieces (position : Position) (t : TypeRef) :
    rendered (typePieces position t) = textAt position t := by
  induction t with
  | array element ih => exact rendered_arrayPieces position ih
  | map element ih =>
    simp [typePieces, ih, textAt_map, dictionaryOf, Piece.render, braced, String.append_assoc]
  | object type ih =>
    obtain ⟨name, ps⟩ := type
    rw [typePieces, objectPieces, textAt_object, objectOf, List.isEmpty_map]
    split
    · simp [Piece.render]
    · have hmembers : (memberPieces position ps).map rendered =
          ps.map (fun p => p.name ++ optionalMark p.optional ++ ": " ++
            nestedText position (textAt position p.type)) := by
        rw [memberPieces_eq, List.map_map]
        exact List.map_congr_left (fun p hp => by simp [Piece.render, ih p hp])
      simp [rendered_joinedPieces, hmembers, Piece.render, braced, String.append_assoc]
  | custom type => exact rendered_customPieces position type
  | bool | int | float | string | asset =>
    cases position <;> simp [typePieces, Piece.render, textAt, typeText, inputTypeText]

@[simp] theorem typeNames_append (ps qs : List Piece) : typeNames (ps ++ qs) = typeNames ps ++ typeNames qs :=
  List.filterMap_append

@[simp] theorem typeNames_nil : typeNames [] = [] := rfl

@[simp] theorem typeNames_typeName (name : String) (ps : List Piece) :
    typeNames (.typeName name :: ps) = name :: typeNames ps := rfl

@[simp] theorem typeNames_text (s : String) (ps : List Piece) :
    typeNames (.text s :: ps) = typeNames ps := rfl

@[simp] theorem typeNames_nestedPieces (position : Position) (type : List Piece) :
    typeNames (nestedPieces position type) = typeNames type := by
  cases position with
  | output => rfl
  | input => simp [nestedPieces]

theorem typeNames_arrayPieces (position : Position) (element : List Piece) :
    typeNames (arrayPieces position element) = typeNames element := by
  cases position with
  | output =>
    rw [arrayPieces]
    split <;> simp
  | input => simp [arrayPieces]

theorem typeNames_joinedPieces (members : List (List Piece)) :
    typeNames (joinedPieces members) = members.flatMap typeNames := by
  induction members with
  | nil => rfl
  | cons member rest ih =>
    cases rest with
    | nil => simp [joinedPieces]
    | cons second rest =>
      rw [joinedPieces, typeNames_append, typeNames_text, ih]
      · simp
      · exact List.cons_ne_nil _ _

theorem typeNames_object (position : Position) (name : String) (ps : List Property) :
    typeNames (typePieces position (.object ⟨name, ps⟩)) =
      ps.flatMap (fun p => typeNames (typePieces position p.type)) := by
  rw [typePieces, objectPieces]
  split
  · next h =>
    rw [List.isEmpty_iff.mp h]
    rfl
  · simp [typeNames_joinedPieces, memberPieces_eq, List.flatMap_map]

theorem typeNames_input (t : TypeRef) :
    typeNames (typePieces .input t) = (customTokens t).map Token.name := by
  induction t with
  | array element ih => exact (typeNames_arrayPieces .input _).trans ih
  | map element ih => simpa [typePieces, customTokens] using ih
  | object type ih =>
    obtain ⟨name, ps⟩ := type
    rw [typeNames_object, customTokens, objectTokens, propertyTokens_eq, List.map_flatMap]
    exact List.flatMap_congr ih
  | custom type =>
    have halternatives : typeNames (type.altTypes.flatMap (fun t => [.text " | ", .typeName t.name])) =
        type.altTypes.map Token.name := by
      induction type.altTypes with
      | nil => rfl
      | cons t rest ih => simp [List.flatMap_cons, ih]
    simpa [typePieces, customPieces, customTokens] using halternatives
  | bool | int | float | string | asset => rfl

/-- In output position it is written with the names of some of them. -/
theorem typeNames_output (t : TypeRef) :
    typeNames (typePieces .output t) ⊆ (customTokens t).map Token.name := by
  induction t with
  | array element ih =>
    rw [typePieces, typeNames_arrayPieces]
    exact ih
  | map element ih => simpa [typePieces, customTokens] using ih
  | object type ih =>
    obtain ⟨name, ps⟩ := type
    rw [typeNames_object, customTokens, objectTokens, propertyTokens_eq, List.map_flatMap]
    intro n hn
    obtain ⟨p, hp, hn⟩ := List.mem_flatMap.mp hn
    exact List.mem_flatMap.mpr ⟨p, hp, ih p hp hn⟩
  | custom type => simp [typePieces, customPieces, customTokens]
  | bool | int | float | string | asset => exact List.nil_subset _

inductive Mentions : TypeRef → Token → Prop where
  | main (type : CustomType) : Mentions (.custom type) type.token
  | alternative {type : CustomType} {t : Token} (h : t ∈ type.altTypes) : Mentions (.custom type) t
  | array {element : TypeRef} {t : Token} (h : Mentions element t) : Mentions (.array element) t
  | map {element : TypeRef} {t : Token} (h : Mentions element t) : Mentions (.map element) t
  | object {type : ObjectType} {p : Property} {t : Token} (hp : p ∈ type.properties) (h : Mentions p.type t) :
    Mentions (.object type) t

theorem mentions_iff {type : TypeRef} {t : Token} : Mentions type t ↔ t ∈ customTokens type := by
  constructor
  · intro h
    induction h with
    | main type => exact List.mem_cons_self
    | alternative h => exact List.mem_cons_of_mem _ h
    | array h ih => exact ih
    | map h ih => exact ih
    | @object type p t hp h ih =>
      obtain ⟨name, ps⟩ := type
      rw [customTokens, objectTokens, propertyTokens_eq]
      exact List.mem_flatMap.mpr ⟨p, hp, ih⟩
  · intro h
    induction type with
    | array element ih => exact .array (ih h)
    | map element ih => exact .map (ih h)
    | object type ih =>
      obtain ⟨name, ps⟩ := type
      rw [customTokens, objectTokens, propertyTokens_eq] at h
      obtain ⟨p, hp, h⟩ := List.mem_flatMap.mp h
      exact .object hp (ih p hp h)
    | custom type =>
      rcases List.mem_cons.mp h with rfl | h
      · exact .main type
      · exact .alternative h
    | bool | int | float | string | asset => cases h

theorem mem_propertyTokens {ps : List Property} {t : Token} :
    t ∈ propertyTokens ps ↔ ∃ p ∈ ps, Mentions p.type t := by
  simp only [propertyTokens_eq, List.mem_flatMap, mentions_iff]

theorem exists_mentioned_of_mem_typeNames (position : Position) {type : TypeRef} {name : String}
    (hname : name ∈ typeNames (typePieces position type)) : ∃ t, Mentions type t ∧ t.name = name := by
  have htokens : name ∈ (customTokens type).map Token.name := by
    cases position with
    | output => exact typeNames_output type hname
    | input => rwa [typeNames_input] at hname
  obtain ⟨t, ht, hname⟩ := List.mem_map.mp htokens
  exact ⟨t, mentions_iff.mpr ht, hname⟩

theorem mem_foreignTokens_iff_mentions {module ownStem : String} {ps : List Property} {t : Token} :
    t ∈ foreignTokens module ownStem ps ↔ (∃ p ∈ ps, Mentions p.type t) ∧ ¬ LivesIn module ownStem t := by
  rw [mem_foreignTokens, mem_propertyTokens]

theorem exists_mentioned_of_mem_names {module ownStem : String} {ps : List Property} {i : Import}
    (hi : i ∈ customTypeImports module ownStem ps) {name : String} (hname : name ∈ i.names) :
    ∃ p ∈ ps, ∃ t, Mentions p.type t ∧ ¬ LivesIn module ownStem t ∧ t.name = name ∧
      i.source = specifier module t.module (tokenStem t) := by
  have himports := (customTypeImports_spec module ownStem ps).2
  obtain ⟨t, ht, hsource, rfl⟩ := (himports i.source name).mp ⟨i, hi, rfl, hname⟩
  obtain ⟨⟨p, hp, hmentions⟩, hlives⟩ := mem_foreignTokens_iff_mentions.mp ht
  exact ⟨p, hp, t, hmentions, hlives, rfl, hsource.symm⟩

/-- The imports of a file have the custom types that its properties mention: every type from its own
file, once and by a specifier that leads there, and nothing else; and every name of a custom type
that stands in the types of the properties is imported, or the type lives in the file. -/
structure ImportsCustomTypes (module ownStem : String) (ps : List Property) : Prop where
  distinct : ((customTypeImports module ownStem ps).map Import.source).Nodup
  complete : ∀ p ∈ ps, ∀ t, Mentions p.type t → ¬ LivesIn module ownStem t →
    ∃ i ∈ customTypeImports module ownStem ps, i.wholeName = none ∧ i.names.count t.name = 1 ∧
      i.source = specifier module t.module (tokenStem t) ∧
      ∀ here, placeFrom (modulePlace here module) i.source =
        placeFrom (modulePlace here t.module) (tokenStem t)
  only : ∀ i ∈ customTypeImports module ownStem ps, i.wholeName = none ∧ i.names ≠ [] ∧ ∀ name ∈ i.names,
    ∃ p ∈ ps, ∃ t, Mentions p.type t ∧ ¬ LivesIn module ownStem t ∧ t.name = name ∧
      i.source = specifier module t.module (tokenStem t)
  written : ∀ p ∈ ps, rendered (typePieces .output p.type) = typeText p.type ∧
    rendered (typePieces .input p.type) = inputTypeText p.type ∧
    ∀ position, ∀ name ∈ typeNames (typePieces position p.type), ∃ t, Mentions p.type t ∧ t.name = name ∧
      (LivesIn module ownStem t ∨
        Imports (customTypeImports module ownStem ps) (specifier module t.module (tokenStem t)) name)

/-- The name of a file: no slash, and not what leads to a directory. -/
structure IsFileName (stem : String) : Prop where
  not_slash : '/' ∉ stem.toList
  named : stem ≠ "" ∧ stem ≠ "." ∧ stem ≠ ".."

instance (stem : String) : Decidable (IsFileName stem) :=
  decidable_of_iff (_ ∧ _) ⟨fun h => ⟨h.1, h.2⟩, fun h => ⟨h.1, h.2⟩⟩

theorem IsFileName.placeFrom {stem : String} (h : IsFileName stem) (here : List String) :
    placeFrom here stem = here ++ [stem] := by
  obtain ⟨hempty, hdot, hdots⟩ := h.named
  rw [placeFrom_name h.not_slash, placeBehind, if_neg (by simp [hempty, hdot]), if_neg hdots]

theorem isDirectoryName_module {t : Token} (h : '/' ∉ t.module.toList ∧ '.' ∉ t.module.toList) :
    IsDirectoryName t.module := by
  refine ⟨fun hempty => ?_, h.1, h.2⟩
  rw [Token.module] at hempty
  split at hempty
  · exact absurd hempty (by decide)
  · next hne => exact hne hempty

/-- Files of different modules or stems lie at different places. -/
theorem eq_of_modulePlace {module module' stem stem' : String} (hmodule : IsDirectoryName module)
    (hmodule' : IsDirectoryName module') (here : List String)
    (h : modulePlace here module ++ [stem] = modulePlace here module' ++ [stem']) :
    module = module' ∧ stem = stem' := by
  obtain ⟨hplace, hstem⟩ := List.append_inj' h rfl
  refine ⟨?_, List.singleton_inj.mp hstem⟩
  by_cases hroot : module = rootModule <;> by_cases hroot' : module' = rootModule
  · rw [hroot, hroot']
  · rw [hroot, modulePlace_root, modulePlace_of_ne_root hroot' hmodule'] at hplace
    simp at hplace
  · rw [hroot', modulePlace_root, modulePlace_of_ne_root hroot hmodule] at hplace
    simp at hplace
  · rw [modulePlace_of_ne_root hroot hmodule, modulePlace_of_ne_root hroot' hmodule'] at hplace
    simpa using hplace

theorem eq_of_placeFrom_specifier {home module module' stem stem' : String} (hhome : IsDirectoryName home)
    (hfile : IsDirectoryName module ∧ IsFileName stem) (hfile' : IsDirectoryName module' ∧ IsFileName stem')
    (here : List String) (h : placeFrom (modulePlace here home) (specifier home module stem) =
      placeFrom (modulePlace here home) (specifier home module' stem')) : module = module' ∧
        stem = stem' := by
  rw [placeFrom_specifier hhome hfile.1, placeFrom_specifier hhome hfile'.1, hfile.2.placeFrom,
    hfile'.2.placeFrom] at h
  exact eq_of_modulePlace hfile.1 hfile'.1 here h

/-- Custom types are imported from where they live if no module has a slash or a dot in its name. If
files have plain names, too, no two imports lead to the same place. Modules are those of tokens, so
that none has the empty name. -/
theorem customTypeImports_lead {home : Token} {ownStem : String} {ps : List Property}
    (hhome : '/' ∉ home.module.toList ∧ '.' ∉ home.module.toList)
    (htokens : ∀ p ∈ ps, ∀ t, Mentions p.type t → '/' ∉ t.module.toList ∧ '.' ∉ t.module.toList) :
    ImportsCustomTypes home.module ownStem ps ∧
      ((∀ p ∈ ps, ∀ t, Mentions p.type t → IsFileName (tokenStem t)) →
        ∀ i ∈ customTypeImports home.module ownStem ps,
          ∀ j ∈ customTypeImports home.module ownStem ps, ∀ here,
          placeFrom (modulePlace here home.module) i.source =
            placeFrom (modulePlace here home.module) j.source →
            i = j) := by
  obtain ⟨hgrouped, himports⟩ := customTypeImports_spec home.module ownStem ps
  refine ⟨⟨hgrouped.sources, ?_, ?_, ?_⟩, ?_⟩
  · intro p hp t hmentions hlives
    have hforeign := mem_foreignTokens_iff_mentions.mpr ⟨⟨p, hp, hmentions⟩, hlives⟩
    obtain ⟨i, hi, hsource, hname⟩ := (himports _ _).mpr ⟨t, hforeign, rfl, rfl⟩
    obtain ⟨hwhole, -, hnodup⟩ := hgrouped.named i hi
    refine ⟨i, hi, hwhole, List.count_eq_one_of_mem hnodup hname, hsource, fun here => ?_⟩
    rw [hsource, placeFrom_specifier (isDirectoryName_module hhome)
      (isDirectoryName_module (htokens p hp t hmentions))]
  · intro i hi
    obtain ⟨hwhole, hne, -⟩ := hgrouped.named i hi
    exact ⟨hwhole, hne, fun name hname => exists_mentioned_of_mem_names hi hname⟩
  · intro p hp
    refine ⟨rendered_typePieces .output p.type, rendered_typePieces .input p.type,
      fun position name hname => ?_⟩
    obtain ⟨t, hmentions, rfl⟩ := exists_mentioned_of_mem_typeNames position hname
    refine ⟨t, hmentions, rfl, ?_⟩
    by_cases hlives : LivesIn home.module ownStem t
    · exact .inl hlives
    · have hforeign := mem_foreignTokens_iff_mentions.mpr ⟨⟨p, hp, hmentions⟩, hlives⟩
      exact .inr ((himports _ _).mpr ⟨t, hforeign, rfl, rfl⟩)
  · intro hfiles i hi j hj here hsame
    obtain ⟨name, hname⟩ := List.exists_mem_of_ne_nil _ (hgrouped.named i hi).2.1
    obtain ⟨name', hname'⟩ := List.exists_mem_of_ne_nil _ (hgrouped.named j hj).2.1
    obtain ⟨p, hp, t, ht, -, -, hsource⟩ := exists_mentioned_of_mem_names hi hname
    obtain ⟨q, hq, u, hu, -, -, hsource'⟩ := exists_mentioned_of_mem_names hj hname'
    rw [hsource, hsource'] at hsame
    obtain ⟨hmodules, hstems⟩ := eq_of_placeFrom_specifier (isDirectoryName_module hhome)
      ⟨isDirectoryName_module (htokens p hp t ht), hfiles p hp t ht⟩
      ⟨isDirectoryName_module (htokens q hq u hu), hfiles q hq u hu⟩ here hsame
    refine List.inj_on_of_nodup_map hgrouped.sources hi hj ?_
    rw [hsource, hsource', hmodules, hstems]

def roleProperty : Property :=
  ⟨"role", "role", .array (.custom ⟨⟨"acme", "iam", some "role", "Role"⟩,
    [⟨"acme", "iam", some "role", "RoleArn"⟩]⟩), true, "", "", none, none, false, .input⟩

/-- Both names come from one file, which lies beside the directory of the importing file. -/
theorem roleProperty_lead :
    customTypeImports "s3" "bucket" [roleProperty] =
      [{ source := "../iam/role", names := ["Role", "RoleArn"] }] ∧
      ImportsCustomTypes "s3" "bucket" [roleProperty] := by
  have htokens : ∀ t ∈ propertyTokens [roleProperty], '/' ∉ t.module.toList ∧
      '.' ∉ t.module.toList := by decide
  have hlead := @customTypeImports_lead (.of "acme" "s3" "Bucket") "bucket" [roleProperty]
    (by decide) (fun p hp t ht => htokens t (mem_propertyTokens.mpr ⟨p, hp, ht⟩))
  exact ⟨by decide, hlead.1⟩

end ProviderSdk.TypeScriptLibrary
