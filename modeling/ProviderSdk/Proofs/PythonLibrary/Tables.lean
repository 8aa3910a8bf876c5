import Mathlib.Data.Set.Function
import ProviderSdk.Proofs.Compile.Projection
import ProviderSdk.Proofs.Library.Manifests
import ProviderSdk.Proofs.Package.Printable
import ProviderSdk.Proofs.Text.Identifiers
import ProviderSdk.PythonLibrary.Tables

/-!
# Tables of names

The tables of a Python library, as its file gives them to who reads it. If the canonical names of a
package are identifiers, the tables lead from every canonical name, at whatever depth, to the name
of the field and back again exactly if no two of the names have fields of one name.
-/

namespace ProviderSdk

/-- A property stands in a type, at some depth. -/
inductive TypeRef.Holds (q : Property) : TypeRef → Prop where
  | array {element} (inner : TypeRef.Holds q element) : TypeRef.Holds q (.array element)
  | map {element} (inner : TypeRef.Holds q element) : TypeRef.Holds q (.map element)
  | own {type} (mem : q ∈ type.properties) : TypeRef.Holds q (.object type)
  | nested {type p} (mem : p ∈ type.properties) (inner : TypeRef.Holds q p.type) :
    TypeRef.Holds q (.object type)

/-- A property of a configuration variable, a resource or a data source of a module. -/
inductive Module.Has (m : Module) : Property → Prop where
  | configuration {v} (mem : v ∈ m.configVariables) : m.Has v
  | resource {r p} (mem : r ∈ m.resources) (property : p ∈ r.inputs ∨ p ∈ r.outputs) : m.Has p
  | dataSource {f p} (mem : f ∈ m.dataSources) (property : p ∈ f.arguments ∨ p ∈ f.results) : m.Has p

/-- A property of a package: that of a module, or one inside the type of such a property. -/
inductive Package.Holds (package : Package) : Property → Prop where
  | own {m p} (mem : m ∈ package.modules) (property : m.Has p) : package.Holds p
  | nested {m p q} (mem : m ∈ package.modules) (property : m.Has p) (inner : p.type.Holds q) : package.Holds q

theorem TypeRef.mem_objects_iff_holds {q : Property} (t : TypeRef) :
    q ∈ t.objects.flatMap ObjectType.properties ↔ t.Holds q := by
  induction t with
  | array element ih =>
    rw [objects, ih]
    exact ⟨.array, fun h => by cases h; assumption⟩
  | map element ih =>
    rw [objects, ih]
    exact ⟨.map, fun h => by cases h; assumption⟩
  | object type ih =>
    obtain ⟨name, properties⟩ := type
    rw [objects, ObjectType.innerObjects, propertyObjects_eq, List.flatMap_cons, List.mem_append,
      List.flatMap_assoc, List.mem_flatMap]
    constructor
    · rintro (h | ⟨p, hp, h⟩)
      · exact .own h
      · exact .nested hp ((ih p hp).mp h)
    · intro h
      cases h with
      | own mem => exact .inl mem
      | nested mem inner => exact .inr ⟨_, mem, (ih _ mem).mpr inner⟩
  | bool | int | float | string | custom | asset =>
    refine ⟨fun h => by simp [objects] at h, fun h => by cases h⟩

namespace PythonLibrary

open Code Text

namespace Tables

theorem mem_withNested {p q : Property} : q ∈ withNested p ↔ q = p ∨ p.type.Holds q := by
  rw [withNested, List.mem_cons, TypeRef.mem_objects_iff_holds]

theorem mem_moduleProperties {m : Module} {p : Property} : p ∈ moduleProperties m ↔ m.Has p := by
  simp only [moduleProperties, List.mem_append, List.mem_flatMap]
  constructor
  · rintro ((h | ⟨r, hr, h⟩) | ⟨f, hf, h⟩)
    · exact .configuration h
    · exact .resource hr h
    · exact .dataSource hf h
  · intro h
    cases h with
    | configuration mem => exact .inl (.inl mem)
    | resource mem property => exact .inl (.inr ⟨_, mem, property⟩)
    | dataSource mem property => exact .inr ⟨_, mem, property⟩

theorem mem_allProperties {package : Package} {q : Property} :
    q ∈ allProperties package ↔ package.Holds q := by
  simp only [allProperties, List.mem_flatMap, mem_moduleProperties, mem_withNested]
  constructor
  · rintro ⟨m, hm, p, hp, rfl | h⟩
    · exact .own hm hp
    · exact .nested hm hp h
  · intro h
    cases h with
    | own mem property => exact ⟨_, mem, _, property, .inl rfl⟩
    | nested mem property inner => exact ⟨_, mem, _, property, .inr inner⟩

end Tables

structure TableReader where
  complete : List (String × NameTable) := []
  current : Option (String × NameTable) := none
  deriving DecidableEq, Repr

/-- The entry on a line: two plain literals with a colon between them, and a comma behind. -/
def entryOfLine? (line : List Char) : Option (String × String) := do
  let start ← afterStart? "    \"".toList line
  let (key, rest) ← cutAt? (· == '"') start
  let middle ← afterStart? ": \"".toList rest
  let (value, rest) ← cutAt? (· == '"') middle
  if rest = [','] ∧ '\\' ∉ key ∧ '\\' ∉ value then some (String.ofList key, String.ofList value) else none

/-- Reads a line. Outside of tables, lines are empty, comments, or assign a table to a name. -/
def TableReader.next : TableReader → List Char → Option TableReader
  | ⟨complete, some (name, entries)⟩, line =>
    if line = closeBrace.toList then some ⟨complete ++ [(name, entries)], none⟩
    else (entryOfLine? line).map (fun e => ⟨complete, some (name, entries ++ [e])⟩)
  | ⟨complete, none⟩, line =>
    if line = [] ∨ line.head? = some '#' then some ⟨complete, none⟩
    else match beforeEnd? (" = " ++ braced "").toList line with
      | some name => some ⟨complete ++ [(String.ofList name, [])], none⟩
      | none =>
        (beforeEnd? (" = " ++ openBrace).toList line).map (fun name =>
          ⟨complete, some (String.ofList name, [])⟩)

/-- The tables of a file, each with its name, if it has nothing else and none is left open. -/
def tablesOf? (file : String) : Option (List (String × NameTable)) := do
  let r ← (splitAt '\n' file.toList).foldlM TableReader.next {}
  if r.current = none then some r.complete else none

/-- What a table answers, or the name itself if it has no answer. Of entries with one key the last
counts, and an empty answer is none. -/
def NameTable.translated (t : NameTable) (name : String) : String :=
  match t.reverse.lookup name with
  | some answer => if answer = "" then name else answer
  | none => name

def entryLine (e : String × String) : String := "    \"" ++ e.1 ++ "\": \"" ++ e.2 ++ "\","

def tableLines (name : String) (t : NameTable) : List String :=
  if t.isEmpty then [name ++ " = " ++ braced ""]
    else (name ++ " = " ++ openBrace) :: t.map entryLine ++ [closeBrace]

def headerLines : List String :=
  "# coding=utf-8" :: CommentStyle.warningLines.map (fun l => "# " ++ l) ++ [""]

theorem definition_eq (name : String) (t : NameTable) :
    Tables.definition name t = lines (tableLines name t) := by
  rw [Tables.definition, tableLines]
  split
  · rfl
  · simp only [lines, List.cons_append, List.map_cons, List.map_append]
    rfl

theorem tablesFile_eq (p : Package) : tablesFile p = String.join ((headerLines ++
    (tableLines "_SNAKE_TO_CAMEL_CASE_TABLE" (Tables.toCanonical p) ++ [""] ++
      tableLines "_CAMEL_TO_SNAKE_CASE_TABLE" (Tables.inverse (Tables.toCanonical p)))).map
        (fun l => l ++ "\n")) := by
  have hheader : fileHeader = String.join (headerLines.map (fun l => l ++ "\n")) := by decide +kernel
  have hsteps (name name' : String) (t t' : NameTable) :
      Tables.definition name t ++ blank ++ Tables.definition name' t' =
        lines (tableLines name t ++ [""] ++ tableLines name' t') ++ [] := by
    simp [definition_eq, lines, blank, Step.blank]
  have hend : Code.text .four [] = "" := rfl
  rw [tablesFile, sourceText, hsteps, text_lines_append, hend, String.append_empty, hheader,
    ← String.join_append, ← List.map_append]

variable {name : String} {t : NameTable}

/-- A table that can be read line by line: it has identifiers, and so plain literals, only. -/
def NameTable.Plain (t : NameTable) : Prop := ∀ e ∈ t, IsIdentifier e.1 ∧ IsIdentifier e.2

theorem entryOfLine?_entryLine {e : String × String} (hkey : IsIdentifier e.1) (hvalue : IsIdentifier e.2) :
    entryOfLine? (entryLine e).toList = some e := by
  have hplain {s : String} (h : IsIdentifier s) : (∀ c ∈ s.toList, (c == '"') = false) ∧ '\\' ∉ s.toList := by
    refine ⟨fun c hc => beq_eq_false_iff_ne.mpr ?_, fun hmem => absurd (h.chars _ hmem) (by decide)⟩
    rintro rfl
    exact absurd (h.chars _ hc) (by decide)
  have hchars : (entryLine e).toList =
      "    \"".toList ++ (e.1.toList ++ '"' :: (": \"".toList ++ (e.2.toList ++ '"' :: [',']))) := by
    simp [entryLine]
  simp only [entryOfLine?, hchars, afterStart?_append,
    cutAt?_append (hplain hkey).1 (show ('"' == '"') = true by decide),
    cutAt?_append (hplain hvalue).1 (show ('"' == '"') = true by decide), Option.bind_eq_bind,
    Option.bind_some]
  rw [if_pos ⟨trivial, (hplain hkey).2, (hplain hvalue).2⟩, String.ofList_toList, String.ofList_toList]

theorem foldlM_next_headerLines (complete : List (String × NameTable)) {ls : List String}
    (h : ∀ l ∈ ls, l.toList = [] ∨ l.toList.head? = some '#') :
    (ls.map String.toList).foldlM TableReader.next ⟨complete, none⟩ = some ⟨complete, none⟩ := by
  induction ls with
  | nil => rfl
  | cons l ls ih =>
    obtain ⟨hl, hrest⟩ := List.forall_mem_cons.mp h
    have hnext : TableReader.next ⟨complete, none⟩ l.toList = some ⟨complete, none⟩ := if_pos hl
    rw [List.map_cons, List.foldlM_cons, hnext]
    exact ih hrest

theorem foldlM_next_entries (complete : List (String × NameTable)) (entries : NameTable) (h : t.Plain) :
    ((t.map entryLine).map String.toList).foldlM TableReader.next ⟨complete, some (name, entries)⟩ =
      some ⟨complete, some (name, entries ++ t)⟩ := by
  -- On what is left of the table, for whatever has been read of it.
  induction t generalizing entries with
  | nil => simp
  | cons e t ih =>
    obtain ⟨⟨hkey, hvalue⟩, hrest⟩ := List.forall_mem_cons.mp h
    have hopen : (entryLine e).toList ≠ closeBrace.toList := by
      intro heq
      have hfirst := congrArg List.head? heq
      simp [entryLine, closeBrace] at hfirst
    have hnext : TableReader.next ⟨complete, some (name, entries)⟩ (entryLine e).toList =
        some ⟨complete, some (name, entries ++ [e])⟩ := by
      rw [TableReader.next, if_neg hopen, entryOfLine?_entryLine hkey hvalue, Option.map_some]
    rw [List.map_cons, List.map_cons, List.foldlM_cons, hnext]
    simpa using ih (entries ++ [e]) hrest

def BeginsLine (name : String) : Prop := name ≠ "" ∧ name.toList.head? ≠ some '#'

theorem next_assignment (complete : List (String × NameTable)) (hname : BeginsLine name) (value : String) :
    TableReader.next ⟨complete, none⟩ (name ++ " = " ++ value).toList =
      match beforeEnd? (" = " ++ braced "").toList (name ++ " = " ++ value).toList with
      | some name => some ⟨complete ++ [(String.ofList name, [])], none⟩
      | none => (beforeEnd? (" = " ++ openBrace).toList (name ++ " = " ++ value).toList).map
          (fun name => ⟨complete, some (String.ofList name, [])⟩) := by
  refine if_neg ?_
  obtain ⟨c, rest, hchars⟩ := List.exists_cons_of_ne_nil (fun h => hname.1 (String.toList_eq_nil_iff.mp h))
  have hhead := hname.2
  rw [hchars] at hhead
  simp only [String.toList_append, hchars, List.cons_append]
  rintro (h | h)
  · cases h
  · exact hhead h

theorem foldlM_next_tableLines (complete : List (String × NameTable)) (hname : BeginsLine name)
    (h : t.Plain) : ((tableLines name t).map String.toList).foldlM TableReader.next ⟨complete, none⟩ =
      some ⟨complete ++ [(name, t)], none⟩ := by
  have hparts (value : String) : (name ++ " = " ++ value).toList =
      name.toList ++ (" = " ++ value).toList := by simp
  rw [tableLines]
  split
  · next hempty =>
    obtain rfl := List.isEmpty_iff.mp hempty
    rw [List.map_cons, List.foldlM_cons, next_assignment complete hname, hparts, beforeEnd?_append]
    simp
  · have hopen : TableReader.next ⟨complete, none⟩ (name ++ " = " ++ openBrace).toList =
        some ⟨complete, some (name, [])⟩ := by
      rw [next_assignment complete hname, hparts, beforeEnd?_eq_none, beforeEnd?_append]
      · simp
      · simp [openBrace, braced, closeBrace]
      · simp
    have hclose : TableReader.next ⟨complete, some (name, t)⟩ closeBrace.toList =
        some ⟨complete ++ [(name, t)], none⟩ := by
      rw [TableReader.next, if_pos rfl]
    rw [List.cons_append, List.map_cons, List.foldlM_cons, hopen, List.map_append, Option.bind_eq_bind,
      Option.bind_some, List.foldlM_append, foldlM_next_entries complete [] h]
    simpa using hclose

theorem newline_not_mem_tableLines (hname : '\n' ∉ name.toList) (h : t.Plain) :
    ∀ l ∈ tableLines name t, '\n' ∉ l.toList := by
  have hbreak {s : String} (hs : IsIdentifier s) : '\n' ∉ s.toList :=
    fun hmem => absurd (hs.chars _ hmem) (by decide)
  have hplain {text : String} (htext : '\n' ∉ text.toList) : '\n' ∉ (name ++ " = " ++ text).toList := by
    simpa using ⟨hname, htext⟩
  intro l hl
  rw [tableLines] at hl
  split at hl
  · rw [List.mem_singleton.mp hl]
    exact hplain (by decide)
  · rw [List.cons_append, List.mem_cons, List.mem_append, List.mem_singleton] at hl
    obtain rfl | hl | rfl := hl
    · exact hplain (by decide)
    · obtain ⟨e, he, rfl⟩ := List.mem_map.mp hl
      obtain ⟨hkey, hvalue⟩ := h e he
      simpa [entryLine] using ⟨hbreak hkey, hbreak hvalue⟩
    · decide

/-- A file whose tables have identifiers only gives them back as they are. -/
theorem tablesOf?_tablesFile {p : Package} (h : (Tables.toCanonical p).Plain)
    (h' : (Tables.inverse (Tables.toCanonical p)).Plain) :
    tablesOf? (tablesFile p) = some [("_SNAKE_TO_CAMEL_CASE_TABLE", Tables.toCanonical p),
      ("_CAMEL_TO_SNAKE_CASE_TABLE", Tables.inverse (Tables.toCanonical p))] := by
  have hbreaks :
      ∀ l ∈ headerLines ++ (tableLines "_SNAKE_TO_CAMEL_CASE_TABLE" (Tables.toCanonical p) ++ [""] ++
      tableLines "_CAMEL_TO_SNAKE_CASE_TABLE" (Tables.inverse (Tables.toCanonical p))), '\n' ∉ l.toList := by
    simp only [List.forall_mem_append]
    exact ⟨by decide +kernel, ⟨newline_not_mem_tableLines (by decide) h, by decide⟩,
      newline_not_mem_tableLines (by decide) h'⟩
  have hlines := splitAt_join_append hbreaks ""
  rw [String.append_empty] at hlines
  rw [tablesOf?, tablesFile_eq, hlines]
  have hheader : (headerLines.map String.toList).foldlM TableReader.next {} = some {} :=
    foldlM_next_headerLines [] (by decide +kernel)
  have hforward :=
    foldlM_next_tableLines [] (show BeginsLine "_SNAKE_TO_CAMEL_CASE_TABLE" from ⟨by decide, by decide⟩) h
  have hblank (complete : List (String × NameTable)) :
      ([""].map String.toList).foldlM TableReader.next ⟨complete, none⟩ = some ⟨complete, none⟩ :=
    foldlM_next_headerLines complete (by decide)
  have hbackward (complete : List (String × NameTable)) := foldlM_next_tableLines complete
    (show BeginsLine "_CAMEL_TO_SNAKE_CASE_TABLE" from ⟨by decide, by decide⟩) h'
  simp only [List.map_append, List.foldlM_append, hheader, hforward, hblank, hbackward, Option.bind_eq_bind,
    Option.bind_some]
  rfl

namespace NameTable

theorem translated_of_lookup {answer : String} (h : t.reverse.lookup name = some answer) (hne : answer ≠ "") :
    t.translated name = answer := by
  rw [translated, h]
  exact if_neg hne

theorem translated_of_none (h : t.reverse.lookup name = none) : t.translated name = name := by
  rw [translated, h]

end NameTable

def canonicalNames (p : Package) : Set String := {name | ∃ q, p.Holds q ∧ q.name = name}

namespace Tables

variable {p : Package} {python canonical : String}

theorem mem_entries : (python, canonical) ∈ (allProperties p).filterMap entry? ↔
    canonical ∈ canonicalNames p ∧ Convention.python.fieldName canonical = python ∧ python ≠ canonical := by
  rw [List.mem_filterMap]
  constructor
  · rintro ⟨q, hq, hentry⟩
    unfold entry? at hentry
    split at hentry
    · cases hentry
    · next hne =>
      obtain ⟨rfl, rfl⟩ := Prod.mk.inj (Option.some.inj hentry)
      exact ⟨⟨q, mem_allProperties.mp hq, rfl⟩, rfl, hne⟩
  · rintro ⟨⟨q, hq, rfl⟩, rfl, hne⟩
    exact ⟨q, mem_allProperties.mpr hq, if_neg hne⟩

/-- If fields of different properties have different names, no entry is lost in the first table. -/
theorem lookup_toCanonical (hinj : Set.InjOn Convention.python.fieldName (canonicalNames p)) :
    (toCanonical p).reverse.lookup python = some canonical ↔
      canonical ∈ canonicalNames p ∧ Convention.python.fieldName canonical = python ∧ python ≠ canonical := by
  rw [toCanonical, Json.lookup_reverse_of_nodup (Json.ascending_sorted _).nodup,
    Json.lookup_sorted_eq_some_iff, mem_entries]
  intro name name' h h'
  obtain ⟨hmem, hfield, -⟩ := mem_entries.mp h
  obtain ⟨hmem', hfield', -⟩ := mem_entries.mp h'
  exact hinj hmem hmem' (hfield.trans hfield'.symm)

theorem mem_toCanonical (h : (python, canonical) ∈ toCanonical p) :
    canonical ∈ canonicalNames p ∧ Convention.python.fieldName canonical = python ∧ python ≠ canonical :=
  mem_entries.mp (Json.mem_of_mem_sorted h)

/-- Nor is one lost when the table is read backwards, as a property has one field. -/
theorem lookup_inverse (hinj : Set.InjOn Convention.python.fieldName (canonicalNames p)) :
    (inverse (toCanonical p)).reverse.lookup canonical = some python ↔
      canonical ∈ canonicalNames p ∧ Convention.python.fieldName canonical = python ∧ python ≠ canonical := by
  have hinverse : inverse (toCanonical p) = Json.Members.sorted ((toCanonical p).map Prod.swap) := rfl
  have hswap {name : String} : (canonical, name) ∈ (toCanonical p).map Prod.swap ↔
      (name, canonical) ∈ toCanonical p := by
    simp
  rw [hinverse, Json.lookup_reverse_of_nodup (Json.ascending_sorted _).nodup,
    Json.lookup_sorted_eq_some_iff, hswap]
  · refine ⟨mem_toCanonical, fun h => ?_⟩
    have hlookup := (lookup_toCanonical hinj).mpr h
    rw [toCanonical, Json.lookup_reverse_of_nodup (Json.ascending_sorted _).nodup] at hlookup
    exact Json.mem_of_lookup hlookup
  · intro name name' h h'
    obtain ⟨-, hfield, -⟩ := mem_toCanonical (hswap.mp h)
    obtain ⟨-, hfield', -⟩ := mem_toCanonical (hswap.mp h')
    exact hfield.symm.trans hfield'

theorem plain_tables (h : ∀ name ∈ canonicalNames p, IsIdentifier name) :
    (toCanonical p).Plain ∧ (inverse (toCanonical p)).Plain := by
  have hplain : (toCanonical p).Plain := by
    intro e he
    obtain ⟨hname, hfield, -⟩ := mem_toCanonical he
    rw [← hfield]
    exact ⟨Convention.isIdentifier_python_fieldName (h e.2 hname), h e.2 hname⟩
  refine ⟨hplain, fun e he => ?_⟩
  obtain ⟨⟨python, canonical⟩, hmem, rfl⟩ := List.mem_map.mp (Json.mem_of_mem_sorted he)
  exact (hplain _ hmem).symm

theorem translated_inverse (hinj : Set.InjOn Convention.python.fieldName (canonicalNames p))
    (hmem : canonical ∈ canonicalNames p) (hname : IsIdentifier canonical) :
    (inverse (toCanonical p)).translated canonical = Convention.python.fieldName canonical := by
  cases hlookup : (inverse (toCanonical p)).reverse.lookup canonical with
  | none =>
    rw [NameTable.translated_of_none hlookup]
    by_contra hne
    have hentry := (lookup_inverse hinj).mpr ⟨hmem, rfl, Ne.symm hne⟩
    rw [hlookup] at hentry
    cases hentry
  | some python =>
    obtain ⟨-, rfl, -⟩ := (lookup_inverse hinj).mp hlookup
    exact NameTable.translated_of_lookup hlookup (Convention.isIdentifier_python_fieldName hname).ne_empty

theorem translated_toCanonical (hinj : Set.InjOn Convention.python.fieldName (canonicalNames p))
    (hmem : canonical ∈ canonicalNames p) (hname : IsIdentifier canonical) :
    (toCanonical p).translated (Convention.python.fieldName canonical) = canonical := by
  cases hlookup : (toCanonical p).reverse.lookup (Convention.python.fieldName canonical) with
  | none =>
    rw [NameTable.translated_of_none hlookup]
    by_contra hne
    have hentry := (lookup_toCanonical hinj).mpr ⟨hmem, rfl, hne⟩
    rw [hlookup] at hentry
    cases hentry
  | some other =>
    obtain ⟨hother, heq, -⟩ := (lookup_toCanonical hinj).mp hlookup
    obtain rfl := hinj hother hmem heq
    exact NameTable.translated_of_lookup hlookup hname.ne_empty

end Tables

/-- If the canonical names of a package are identifiers, the tables in the file lead from every
canonical name to the name of its field and back, exactly if no two of the names have fields of one
name. -/
theorem tablesFile_translates_iff {p : Package} (h : ∀ q, p.Holds q → IsIdentifier q.name) :
    ∃ toCanonical toPython : NameTable,
      tablesOf? (tablesFile p) =
        some [("_SNAKE_TO_CAMEL_CASE_TABLE", toCanonical), ("_CAMEL_TO_SNAKE_CASE_TABLE", toPython)] ∧
      ((∀ q, p.Holds q → toPython.translated q.name = Convention.python.fieldName q.name ∧
          toCanonical.translated (toPython.translated q.name) = q.name) ↔
        Set.InjOn Convention.python.fieldName {name | ∃ q, p.Holds q ∧ q.name = name}) := by
  have hnames : ∀ name ∈ canonicalNames p, IsIdentifier name := by
    rintro _ ⟨q, hq, rfl⟩
    exact h q hq
  obtain ⟨hplain, hplain'⟩ := Tables.plain_tables hnames
  refine ⟨Tables.toCanonical p, Tables.inverse (Tables.toCanonical p),
    tablesOf?_tablesFile hplain hplain', ?_⟩
  constructor
  · rintro htranslated _ ⟨q, hq, rfl⟩ _ ⟨q', hq', rfl⟩ heq
    obtain ⟨hfield, hback⟩ := htranslated q hq
    obtain ⟨hfield', hback'⟩ := htranslated q' hq'
    rw [← hback, ← hback', hfield, hfield', heq]
  · intro hinj q hq
    have hfield := Tables.translated_inverse hinj ⟨q, hq, rfl⟩ (h q hq)
    refine ⟨hfield, ?_⟩
    rw [hfield]
    exact Tables.translated_toCanonical hinj ⟨q, hq, rfl⟩ (h q hq)

/-- A package with names that change, one of them reserved, in the properties of an object type in a list. -/
def rulePackage : Package :=
  let property (rawName name : String) (type : TypeRef) : Property :=
    { (default : Property) with rawName, name, type }
  let rule : ObjectType :=
    ⟨"HostRule", [property "id" "id" .string, property "mount_path" "mountPath" .string]⟩
  let host : Resource := { (default : Resource) with
    name := "Host"
    fileStem := "host"
    outputs := [property "size" "size" .int, property "rules" "rules" (.array (.object rule))] }
  { name := "acme", version := "0.0.1", modules := [⟨"index", [.resource host]⟩] }

theorem rulePackage_translates :
    (∀ q, rulePackage.Holds q → IsIdentifier q.name) ∧
    ∃ toCanonical toPython : NameTable,
      tablesOf? (tablesFile rulePackage) =
        some [("_SNAKE_TO_CAMEL_CASE_TABLE", toCanonical), ("_CAMEL_TO_SNAKE_CASE_TABLE", toPython)] ∧
      ∀ q, rulePackage.Holds q → toPython.translated q.name = Convention.python.fieldName q.name ∧
        toCanonical.translated (toPython.translated q.name) = q.name := by
  have hlisted : (Tables.allProperties rulePackage).map (fun q => q.name) =
      ["size", "rules", "id", "mountPath"] := rfl
  have hname {q : Property} (hq : rulePackage.Holds q) : q.name ∈ ["size", "rules", "id", "mountPath"] := by
    rw [← hlisted]
    exact List.mem_map_of_mem (Tables.mem_allProperties.mpr hq)
  have hnames : ∀ q, rulePackage.Holds q → IsIdentifier q.name := by
    have hall : ∀ name ∈ ["size", "rules", "id", "mountPath"], IsIdentifier name := by decide
    exact fun q hq => hall q.name (hname hq)
  have hinj : Set.InjOn Convention.python.fieldName {name | ∃ q, rulePackage.Holds q ∧ q.name = name} := by
    have hnodup : (["size", "rules", "id", "mountPath"].map Convention.python.fieldName).Nodup := by
      decide +kernel
    rintro _ ⟨q, hq, rfl⟩ _ ⟨q', hq', rfl⟩ heq
    exact List.inj_on_of_nodup_map hnodup (hname hq) (hname hq') heq
  obtain ⟨toCanonical, toPython, hread, hiff⟩ := tablesFile_translates_iff hnames
  exact ⟨hnames, toCanonical, toPython, hread, hiff.mpr hinj⟩

end PythonLibrary

end ProviderSdk
