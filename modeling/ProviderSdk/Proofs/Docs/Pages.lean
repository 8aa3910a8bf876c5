import Mathlib.Data.List.DropRight
import ProviderSdk.Docs.Page
import ProviderSdk.Proofs.Json.Members
import ProviderSdk.Proofs.Text.Pieces

/-!
# Pages that are read back

A page that is written with a title, a description and two lists of bullets says what it was written from: the
description line by line, and of each key what its last bullet says.
-/

namespace ProviderSdk

namespace Text

theorem dropEndBlanks_append (front back : List Char) : dropEndBlanks (front ++ back) =
    if (dropEndBlanks back).isEmpty then dropEndBlanks front else front ++ dropEndBlanks back := by
  rw [dropEndBlanks, List.reverse_append, List.dropWhile_append, dropEndBlanks, List.isEmpty_reverse]
  split
  · rfl
  · rw [List.reverse_append, List.reverse_reverse]

theorem dropEndBlanks_eq_nil {blanks : List Char} (h : ∀ c ∈ blanks, isBlank c = true) :
    dropEndBlanks blanks = [] :=
  List.rdropWhile_eq_nil_iff.mpr h

end Text

namespace DocPage

open Text (dropBlanks dropEndBlanks dropEndBlanks_append dropEndBlanks_eq_nil isBlank afterStart?
  afterStart?_eq_none_iff
  afterStart?_append)

theorem trimmed_toList (line : String) : trimmed line.toList = (Text.trim line).toList := by
  rw [Text.trim, String.toList_ofList, trimmed]

theorem trimmed_append_blanks (cs : List Char) {blanks : List Char} (h : ∀ c ∈ blanks, isBlank c = true) :
    trimmed (cs ++ blanks) = trimmed cs := by
  rw [trimmed, trimmed, dropBlanks, List.dropWhile_append]
  split
  · next hnil => rw [List.dropWhile_eq_nil_iff.mpr h, dropBlanks, List.isEmpty_iff.mp hnil]
  · rw [dropEndBlanks_append, dropEndBlanks_eq_nil h, List.isEmpty_nil, if_pos rfl, dropBlanks]

theorem trimmed_append_return (line : List Char) : trimmed (line ++ ['\r']) = trimmed line :=
  trimmed_append_blanks line (List.forall_mem_singleton.mpr rfl)

theorem trimmed_dropEndBlanks (cs : List Char) : trimmed (dropEndBlanks cs) = trimmed cs := by
  conv_rhs => rw [← List.rdropWhile_append_rtakeWhile (p := isBlank) (l := cs)]
  exact (trimmed_append_blanks _ (fun c hc => List.mem_rtakeWhile_imp hc)).symm

theorem trimmed_cons_blank {c : Char} (h : isBlank c = true) (cs : List Char) :
    trimmed (c :: cs) = trimmed cs := by
  rw [trimmed, dropBlanks, List.dropWhile_cons_of_pos h, trimmed, dropBlanks]

/-- What begins and ends with something stays where it begins a line. -/
theorem trimmed_append {front : List Char} (hne : front ≠ []) (hstart : dropBlanks front = front)
    (hend : dropEndBlanks front = front) (back : List Char) :
    trimmed (front ++ back) = front ++ dropEndBlanks back := by
  have hfront : dropBlanks (front ++ back) = front ++ back := by
    rw [dropBlanks] at hstart ⊢
    rw [List.dropWhile_append, hstart, if_neg (by simpa using hne)]
  rw [trimmed, hfront, dropEndBlanks_append]
  split
  · next hnil => rw [hend, List.isEmpty_iff.mp hnil, List.append_nil]
  · rfl

theorem trimmed_of_readFrom {line read : List Char} (h : Text.ReadFrom line read) :
    trimmed read = trimmed line := by
  rcases h with rfl | rfl
  · rfl
  · exact (trimmed_append_return read).symm

/-- A carriage return at the end of a line makes no difference. -/
theorem readLine_append_return (s : ReadState) (line : List Char) :
    readLine s (line ++ ['\r']) = readLine s line := by
  cases line with
  | nil => rfl
  | cons c rest =>
    have hhead : (c :: rest ++ ['\r']).head? = (c :: rest).head? := rfl
    simp only [readLine, readEntry, trimmed_append_return, hhead]

theorem readLine_of_readFrom {line read : List Char} (h : Text.ReadFrom line read) (s : ReadState) :
    readLine s read = readLine s line := by
  rcases h with rfl | rfl
  · rfl
  · exact (readLine_append_return s read).symm

theorem foldl_readLine_of_readFrom {lines reads : List (List Char)}
    (h : List.Forall₂ Text.ReadFrom lines reads) (s : ReadState) :
    reads.foldl readLine s = lines.foldl readLine s := by
  induction h generalizing s with
  | nil => rfl
  | cons hline _ ih => rw [List.foldl_cons, List.foldl_cons, readLine_of_readFrom hline, ih]

theorem parse_eq {text : String} {lines : List (List Char)}
    (hfence : ∀ first ∈ lines.head?, isFence first = false)
    (h : List.Forall₂ Text.ReadFrom lines (Text.textLines text.toList)) :
    parse text =
      let s := lines.foldl readLine {}
      { s.page with description := "\n".intercalate s.description.reverse } := by
  have hmatter : withoutFrontMatter (Text.textLines text.toList) = Text.textLines text.toList := by
    generalize Text.textLines text.toList = reads at h
    cases h with
    | nil => rfl
    | cons hline _ =>
      have hread := hfence _ rfl
      rw [isFence, ← trimmed_of_readFrom hline, ← isFence] at hread
      rw [withoutFrontMatter, if_neg (by simp [hread])]
  rw [parse, hmatter, foldl_readLine_of_readFrom h]

theorem readLine_argumentHeading (s : ReadState) :
    readLine s "## Argument Reference".toList = { s with part := .arguments, lastKey := none } := rfl

theorem readLine_attributesHeading (s : ReadState) :
    readLine s "## Attributes Reference".toList = { s with part := .attributes, lastKey := none } := rfl

theorem trimmed_title {title : List Char} (htitle : trimmed title ≠ []) :
    trimmed ("# ".toList ++ title) = "# ".toList ++ dropEndBlanks title := by
  have hkept : dropEndBlanks (' ' :: title) = ' ' :: dropEndBlanks title := by
    rw [← List.singleton_append, dropEndBlanks_append, if_neg, List.singleton_append]
    intro hnil
    rw [← trimmed_dropEndBlanks, List.isEmpty_iff.mp hnil] at htitle
    exact htitle rfl
  have hmark := trimmed_append (List.cons_ne_nil '#' []) rfl rfl (' ' :: title)
  rwa [hkept] at hmark

theorem readLine_title {s : ReadState} (hpart : s.part = .preamble) {title : List Char}
    (htitle : trimmed title ≠ []) :
    readLine s ("# ".toList ++ title) = { s with part := .description } := by
  have hheading : afterStart? "## ".toList ("# ".toList ++ dropEndBlanks title) = none := rfl
  simp only [readLine, trimmed_title htitle, hheading, afterStart?_append, hpart]
  rfl

structure IsDescriptionLine (line : String) : Prop where
  not_break : '\n' ∉ line.toList
  trimmed : Text.trim line = line
  ne_empty : line ≠ ""
  not_heading : ¬ "## ".toList <+: line.toList

theorem readLine_description {s : ReadState} (hpart : s.part = .description) {line : String}
    (h : IsDescriptionLine line) :
    readLine s line.toList = { s with description := line :: s.description } := by
  have htrimmed : trimmed line.toList = line.toList := by rw [trimmed_toList, h.trimmed]
  simp only [readLine, htrimmed, afterStart?_eq_none_iff.mpr h.not_heading, hpart]
  rw [if_neg (by simp), if_neg (by simpa using h.ne_empty), String.ofList_toList]

theorem foldl_readLine_description {s : ReadState} (hpart : s.part = .description) {lines : List String}
    (h : ∀ line ∈ lines, IsDescriptionLine line) :
    (lines.map String.toList).foldl readLine s =
      { s with description := lines.reverse ++ s.description } := by
  induction lines generalizing s with
  | nil => rfl
  | cons line rest ih =>
    obtain ⟨hline, hrest⟩ := List.forall_mem_cons.mp h
    rw [List.map_cons, List.foldl_cons, readLine_description hpart hline, ih (by exact hpart) hrest,
      List.reverse_cons, List.append_assoc, List.singleton_append]

/-- An empty line ends a description that has been begun. -/
theorem exists_readLine_nil {s : ReadState} (hpart : s.part = .description) :
    ∃ part, readLine s [] = { s with part := part } := by
  have hstep : readLine s [] = if s.description.isEmpty then s else { s with part := .other } := by
    have hnil : trimmed [] = [] := rfl
    simp only [readLine, hnil, hpart]
    rfl
  rw [hstep]
  split
  · exact ⟨s.part, rfl⟩
  · exact ⟨.other, rfl⟩

/-- What follows a bullet: lines with blanks at their beginning, which are neither headings nor bullets. -/
structure IsContinuation (line : String) : Prop where
  not_break : '\n' ∉ line.toList
  indented : line.toList.head?.any isBlank = true
  ne_blank : Text.trim line ≠ ""
  not_heading : ¬ "## ".toList <+: (Text.trim line).toList
  not_bullet : ¬ ("* `".toList <+: (Text.trim line).toList ∧ '`' ∈ (Text.trim line).toList.drop 3)

structure Bullet where
  key : String
  text : String
  continuation : List String
  key_not_break : '\n' ∉ key.toList
  key_not_closed : '`' ∉ key.toList
  text_not_break : '\n' ∉ text.toList
  text_trimmed : Text.trim text = text
  continues : ∀ line ∈ continuation, IsContinuation line

namespace Bullet

variable (b : Bullet)

def firstLine : String := "* `" ++ b.key ++ "` - " ++ b.text

def lines : List String := b.firstLine :: b.continuation

def said : String := " ".intercalate (b.text :: b.continuation.map Text.trim)

end Bullet

theorem bullet?_eq_none {line : List Char} (h : ¬ ("* `".toList <+: line ∧ '`' ∈ line.drop 3)) :
    bullet? line = none := by
  by_cases hopen : "* `".toList <+: line
  · obtain ⟨rest, rfl⟩ := hopen
    have hclosed : '`' ∉ rest := fun hmem => h ⟨List.prefix_append _ _, hmem⟩
    have hcut : Text.cutAt? (· == '`') rest = none :=
      Text.cutAt?_eq_none_iff.mpr (fun c hc => beq_eq_false_iff_ne.mpr (fun heq => hclosed (heq ▸ hc)))
    rw [bullet?, afterStart?_append, Option.bind_eq_bind, Option.bind_some, hcut]
    rfl
  · rw [bullet?, afterStart?_eq_none_iff.mpr hopen]
    rfl

theorem trimmed_firstLine (b : Bullet) : trimmed b.firstLine.toList =
    "* `".toList ++ (b.key.toList ++ '`' :: ' ' :: '-' :: dropEndBlanks (' ' :: b.text.toList)) := by
  have hline : b.firstLine.toList = "* `".toList ++ b.key.toList ++ "` -".toList ++ ' ' :: b.text.toList := by
    simp [Bullet.firstLine]
  have hend : dropEndBlanks ("* `".toList ++ b.key.toList ++ "` -".toList) =
      "* `".toList ++ b.key.toList ++ "` -".toList := by
    rw [dropEndBlanks_append]
    rfl
  rw [hline, trimmed_append (by simp) rfl hend]
  simp

/-- The first line of a bullet is read as its key and its text, whatever the text begins with. -/
theorem bullet?_firstLine (b : Bullet) : bullet? (trimmed b.firstLine.toList) = some (b.key, b.text) := by
  have hkey : ∀ c ∈ b.key.toList, (c == '`') = false :=
    fun c hc => beq_eq_false_iff_ne.mpr (fun heq => b.key_not_closed (heq ▸ hc))
  have htext : String.ofList (trimmed (dropEndBlanks (' ' :: b.text.toList))) = b.text := by
    rw [trimmed_dropEndBlanks, trimmed_cons_blank rfl]
    exact b.text_trimmed
  rw [bullet?, trimmed_firstLine, afterStart?_append, Option.bind_eq_bind, Option.bind_some,
    Text.cutAt?_append hkey rfl, Option.bind_eq_bind, Option.bind_some]
  change some (String.ofList b.key.toList, String.ofList (trimmed (dropEndBlanks (' ' :: b.text.toList)))) = _
  rw [htext, String.ofList_toList]

theorem afterStart?_firstLine (b : Bullet) :
    afterStart? "## ".toList (trimmed b.firstLine.toList) = none := by
  rw [trimmed_firstLine]
  rfl

theorem map_fst_continueEntry (key text : String) (entries : List (String × String)) :
    (continueEntry key text entries).map Prod.fst = entries.map Prod.fst := by
  rw [continueEntry, List.map_map]
  refine List.map_congr_left (fun entry _ => ?_)
  simp only [Function.comp_apply]
  split <;> rfl

theorem lookup_continueEntry (key text : String) (entries : List (String × String)) (k : String) :
    (continueEntry key text entries).lookup k =
      (entries.lookup k).map (fun v => if k = key then v ++ " " ++ text else v) := by
  induction entries with
  | nil => rfl
  | cons entry rest ih =>
    obtain ⟨k₀, v⟩ := entry
    rw [continueEntry, List.map_cons, ← continueEntry, Json.lookup_cons_ite, Json.lookup_cons_ite, ih]
    by_cases hkey : k₀ = key
    · by_cases hk : k = k₀ <;> simp_all
    · by_cases hk : k = k₀ <;> simp_all

theorem continueEntry_insertMember {entries : List (String × String)} (h : Json.Ascending entries)
    (key value text : String) :
    continueEntry key text (Json.insertMember key value entries) =
      Json.insertMember key (value ++ " " ++ text) entries := by
  have hkeys : Json.Ascending (continueEntry key text (Json.insertMember key value entries)) := by
    rw [Json.Ascending, map_fst_continueEntry]
    exact h.insertMember key value
  refine hkeys.ext (h.insertMember key _) (fun k => ?_)
  rw [lookup_continueEntry, Json.lookup_insertMember, Json.lookup_insertMember]
  by_cases hk : k = key
  · simp [hk]
  · simp [hk]

/-- The entries after some lines, and the key that indented lines continue. -/
def readEntries (lines : List (List Char)) (r : List (String × String) × Option String) :
    List (String × String) × Option String :=
  lines.foldl (fun r line => readEntry line (trimmed line) r.2 r.1) r

theorem readEntries_append (lines more : List (List Char)) (r : List (String × String) × Option String) :
    readEntries (lines ++ more) r = readEntries more (readEntries lines r) := List.foldl_append

theorem readEntry_firstLine (b : Bullet) (lastKey : Option String) (entries : List (String × String)) :
    readEntry b.firstLine.toList (trimmed b.firstLine.toList) lastKey entries =
      (Json.insertMember b.key b.text entries, some b.key) := by
  simp only [readEntry, bullet?_firstLine]

theorem readEntry_continuation {line : String} (h : IsContinuation line) (key : String)
    (entries : List (String × String)) :
    readEntry line.toList (trimmed line.toList) (some key) entries =
      (continueEntry key (Text.trim line) entries, some key) := by
  have hne : (Text.trim line).toList.isEmpty = false := by simpa using h.ne_blank
  simp only [readEntry, trimmed_toList, bullet?_eq_none h.not_bullet, hne, h.indented]
  simp

theorem readEntries_continuation {entries : List (String × String)} (hentries : Json.Ascending entries)
    (key text : String) {lines : List String} (h : ∀ line ∈ lines, IsContinuation line) :
    readEntries (lines.map String.toList) (Json.insertMember key text entries, some key) =
      (Json.insertMember key (" ".intercalate (text :: lines.map Text.trim)) entries, some key) := by
  induction lines generalizing text with
  | nil => simp [readEntries]
  | cons line rest ih =>
    obtain ⟨hline, hrest⟩ := List.forall_mem_cons.mp h
    have hnext := ih (text ++ " " ++ Text.trim line) hrest
    rw [String.intercalate_cons_append, ← String.intercalate_cons_cons] at hnext
    rw [List.map_cons, List.map_cons, ← hnext, readEntries, List.foldl_cons, readEntry_continuation hline,
      continueEntry_insertMember hentries, readEntries]

theorem readEntries_lines (b : Bullet) {entries : List (String × String)} (hentries : Json.Ascending entries)
    (lastKey : Option String) :
    readEntries (b.lines.map String.toList) (entries, lastKey) =
      (Json.insertMember b.key b.said entries, some b.key) := by
  rw [Bullet.lines, List.map_cons, readEntries, List.foldl_cons, readEntry_firstLine]
  exact readEntries_continuation hentries b.key b.text b.continues

def bulletLines (bullets : List Bullet) : List String := bullets.flatMap Bullet.lines

theorem readEntries_bulletLines (bullets : List Bullet) {entries : List (String × String)}
    (hentries : Json.Ascending entries) (lastKey : Option String) :
    (readEntries ((bulletLines bullets).map String.toList) (entries, lastKey)).1 =
      (bullets.map (fun b => (b.key, b.said))).foldl
        (fun acc m => Json.insertMember m.1 m.2 acc) entries := by
  induction bullets generalizing entries lastKey with
  | nil => rfl
  | cons b rest ih =>
    rw [bulletLines, List.flatMap_cons, ← bulletLines, List.map_append, readEntries_append,
      readEntries_lines b hentries, ih (hentries.insertMember _ _), List.map_cons, List.foldl_cons]

/-- Entries are documented by bullets: they are a map in which each key has what its last bullet says. -/
structure Documented (bullets : List Bullet) (entries : List (String × String)) : Prop where
  ascending : Json.Ascending entries
  lookup_eq : ∀ key, entries.lookup key = (bullets.filter (fun b => b.key = key)).getLast?.map Bullet.said

theorem lookup_reverse_bullets (bullets : List Bullet) (key : String) :
    (bullets.map (fun b => (b.key, b.said))).reverse.lookup key =
      (bullets.filter (fun b => b.key = key)).getLast?.map Bullet.said := by
  induction bullets using List.reverseRecOn with
  | nil => rfl
  | append_singleton front b ih =>
    rw [List.map_append, List.map_singleton, List.reverse_append, List.reverse_singleton,
      List.singleton_append, Json.lookup_cons_ite, ih, List.filter_append, List.filter_singleton]
    by_cases hkey : b.key = key
    · simp [hkey]
    · simp [hkey, Ne.symm hkey]

theorem documented_readEntries (bullets : List Bullet) (lastKey : Option String) :
    Documented bullets (readEntries ((bulletLines bullets).map String.toList) ([], lastKey)).1 := by
  have hnil : Json.Ascending ([] : List (String × String)) := List.Pairwise.nil
  rw [readEntries_bulletLines bullets hnil]
  exact ⟨Json.ascending_sorted _, fun key =>
    (Json.lookup_sorted _ key).trans (lookup_reverse_bullets bullets key)⟩

def ReadState.entries (s : ReadState) : List (String × String) :=
  match s.part with
  | .arguments => s.page.arguments
  | .attributes => s.page.attributes
  | _ => []

def ReadState.withEntries (s : ReadState) (entries : List (String × String)) : ReadState :=
  match s.part with
  | .arguments => { s with page := { s.page with arguments := entries } }
  | .attributes => { s with page := { s.page with attributes := entries } }
  | _ => s

theorem readLine_entry {s : ReadState} (hpart : s.part = .arguments ∨ s.part = .attributes) {line : List Char}
    (hline : afterStart? "## ".toList (trimmed line) = none) :
    readLine s line =
      let r := readEntry line (trimmed line) s.lastKey s.entries
      { s.withEntries r.1 with lastKey := r.2 } := by
  rcases hpart with hpart | hpart
  · simp only [readLine, hline, hpart, ReadState.entries, ReadState.withEntries]
    rw [if_neg (by simp)]
  · simp only [readLine, hline, hpart, ReadState.entries, ReadState.withEntries]
    rw [if_neg (by simp)]

theorem foldl_readLine_entries {s : ReadState} (hpart : s.part = .arguments ∨ s.part = .attributes)
    {lines : List (List Char)} (h : ∀ line ∈ lines, afterStart? "## ".toList (trimmed line) = none) :
    lines.foldl readLine s =
      let r := readEntries lines (s.entries, s.lastKey)
      { s.withEntries r.1 with lastKey := r.2 } := by
  induction lines generalizing s with
  | nil =>
    obtain ⟨page, part, description, lastKey⟩ := s
    rcases hpart with hpart | hpart <;> cases hpart <;> rfl
  | cons line rest ih =>
    obtain ⟨hline, hrest⟩ := List.forall_mem_cons.mp h
    rw [List.foldl_cons, readLine_entry hpart hline]
    obtain ⟨page, part, description, lastKey⟩ := s
    rcases hpart with hpart | hpart <;> cases hpart
    · exact ih (.inl rfl) hrest
    · exact ih (.inr rfl) hrest

theorem afterStart?_of_mem_bulletLines {bullets : List Bullet} {line : String}
    (h : line ∈ bulletLines bullets) :
    afterStart? "## ".toList (trimmed line.toList) = none := by
  obtain ⟨b, _, hline⟩ := List.mem_flatMap.mp h
  rcases List.mem_cons.mp hline with rfl | hline
  · exact afterStart?_firstLine b
  · rw [trimmed_toList]
    exact afterStart?_eq_none_iff.mpr (b.continues line hline).not_heading

theorem not_break_of_mem_bulletLines {bullets : List Bullet} {line : String}
    (h : line ∈ bulletLines bullets) :
    '\n' ∉ line.toList := by
  obtain ⟨b, _, hline⟩ := List.mem_flatMap.mp h
  rcases List.mem_cons.mp hline with rfl | hline
  · simp [Bullet.firstLine, b.key_not_break, b.text_not_break]
  · exact (b.continues line hline).not_break

theorem ne_empty_of_mem_bulletLines {bullets : List Bullet} {line : String} (h : line ∈ bulletLines bullets) :
    line ≠ "" := by
  obtain ⟨b, _, hline⟩ := List.mem_flatMap.mp h
  rcases List.mem_cons.mp hline with rfl | hline
  · simp [Bullet.firstLine]
  · rintro rfl
    exact (b.continues "" hline).ne_blank rfl

/-- A section below its heading gives its entries and changes nothing else of the page. -/
theorem foldl_readLine_bulletLines {s : ReadState} (hpart : s.part = .arguments ∨ s.part = .attributes)
    (hnone : s.entries = []) (bullets : List Bullet) :
    ∃ entries lastKey, Documented bullets entries ∧
      ((bulletLines bullets).map String.toList).foldl readLine s =
        { s.withEntries entries with lastKey := lastKey } := by
  have hlines : ∀ line ∈ (bulletLines bullets).map String.toList,
      afterStart? "## ".toList (trimmed line) = none := by
    intro line hline
    obtain ⟨l, hl, rfl⟩ := List.mem_map.mp hline
    exact afterStart?_of_mem_bulletLines hl
  rw [foldl_readLine_entries hpart hlines, hnone]
  exact ⟨_, _, documented_readEntries bullets s.lastKey, rfl⟩

structure Source where
  title : String
  description : List String
  arguments : List Bullet
  attributes : List Bullet
  ended : Bool
  title_not_break : '\n' ∉ title.toList
  title_ne_blank : Text.trim title ≠ ""
  description_lines : ∀ line ∈ description, IsDescriptionLine line

namespace Source

variable (p : Source)

def lines : List String :=
  ("# " ++ p.title) :: (p.description ++ "" :: "## Argument Reference" :: (bulletLines p.arguments ++
    "## Attributes Reference" :: bulletLines p.attributes))

def text : String := "\n".intercalate p.lines ++ (if p.ended then "\n" else "")

theorem trimmed_title_ne_nil : trimmed p.title.toList ≠ [] := by
  rw [trimmed_toList]
  simpa using p.title_ne_blank

theorem not_break_of_mem_lines {line : String} (h : line ∈ p.lines) : '\n' ∉ line.toList := by
  simp only [lines, List.mem_cons, List.mem_append] at h
  rcases h with rfl | h | rfl | rfl | h | rfl | h
  · simpa using p.title_not_break
  · exact (p.description_lines line h).not_break
  · decide
  · decide
  · exact not_break_of_mem_bulletLines h
  · decide
  · exact not_break_of_mem_bulletLines h

theorem exists_lines_eq : ∃ front last, p.lines = front ++ [last] ∧ last ≠ "" := by
  obtain ⟨front, last, hsection⟩ : ∃ front last,
      "## Attributes Reference" :: bulletLines p.attributes = front ++ [last] :=
    (List.eq_nil_or_concat' _).resolve_left (List.cons_ne_nil _ _)
  refine ⟨("# " ++ p.title) :: (p.description ++ "" :: "## Argument Reference" ::
    (bulletLines p.arguments ++ front)), last, by simp [lines, hsection], ?_⟩
  have hlast : last ∈ "## Attributes Reference" :: bulletLines p.attributes := by simp [hsection]
  rcases List.mem_cons.mp hlast with rfl | hlast
  · decide
  · exact ne_empty_of_mem_bulletLines hlast

theorem forall₂_textLines :
    List.Forall₂ Text.ReadFrom (p.lines.map String.toList) (Text.textLines p.text.toList) := by
  obtain ⟨front, last, hlines, hlast⟩ := p.exists_lines_eq
  rw [text, hlines]
  exact Text.forall₂_textLines (fun line hline => p.not_break_of_mem_lines (hlines ▸ hline)) hlast p.ended

theorem isFence_of_mem_head? {first : List Char} (h : first ∈ (p.lines.map String.toList).head?) :
    isFence first = false := by
  obtain rfl : ("# " ++ p.title).toList = first := Option.some.inj h
  rw [isFence, String.toList_append, trimmed_title p.trimmed_title_ne_nil]
  rfl

/-- Section by section, the lines of a page give what it says. -/
theorem exists_foldl_readLine : ∃ arguments attributes lastKey,
    Documented p.arguments arguments ∧ Documented p.attributes attributes ∧
      (p.lines.map String.toList).foldl readLine {} =
        { page := { arguments := arguments, attributes := attributes }, part := .attributes,
          description := p.description.reverse, lastKey := lastKey } := by
  have hdescription := foldl_readLine_description (s := { part := .description }) rfl p.description_lines
  rw [List.append_nil] at hdescription
  obtain ⟨part, hblank⟩ :=
    exists_readLine_nil (s := { part := .description, description := p.description.reverse }) rfl
  -- The heading of a section ends what was read before: only the entries of the first section are carried on.
  obtain ⟨arguments, _, harguments, hfirst⟩ := foldl_readLine_bulletLines
    (s := { part := .arguments, description := p.description.reverse }) (.inl rfl) rfl p.arguments
  obtain ⟨attributes, lastKey, hattributes, hsecond⟩ := foldl_readLine_bulletLines
    (s := { page := { arguments := arguments }, part := .attributes, description := p.description.reverse })
    (.inr rfl) rfl p.attributes
  refine ⟨arguments, attributes, lastKey, harguments, hattributes, ?_⟩
  rw [lines, List.map_cons, List.foldl_cons, String.toList_append, readLine_title rfl p.trimmed_title_ne_nil,
    List.map_append, List.foldl_append, hdescription, List.map_cons, List.foldl_cons,
    String.toList_empty, hblank, List.map_cons, List.foldl_cons, readLine_argumentHeading, List.map_append,
    List.foldl_append, hfirst, List.map_cons, List.foldl_cons, readLine_attributesHeading]
  exact hsecond

end Source

/-- A page says what it was written from: the lines of its description, and of each key of its two
sections the text of the last bullet with the lines that continue it. -/
theorem parse_source (p : Source) :
    (parse p.text).description = "\n".intercalate p.description ∧
      Documented p.arguments (parse p.text).arguments ∧
      Documented p.attributes (parse p.text).attributes := by
  obtain ⟨arguments, attributes, lastKey, harguments, hattributes, hread⟩ := p.exists_foldl_readLine
  rw [parse_eq (fun _ => p.isFence_of_mem_head?) p.forall₂_textLines, hread]
  exact ⟨by simp, harguments, hattributes⟩

/-- A page on which a key is repeated and a text begins with marks and is continued by two lines. -/
def widgetSource : Source where
  title := "Widget"
  description := ["# Small.", "---"]
  arguments := [
    ⟨"tags", "Old.", [], by decide, by decide, by decide, by decide, by simp⟩,
    ⟨"tags", "- # or :", ["  of", "\t# it"], by decide, by decide, by decide, by decide,
      List.forall_mem_cons.mpr ⟨⟨by decide, by decide, by decide, by decide, by decide⟩,
        List.forall_mem_singleton.mpr ⟨by decide, by decide, by decide, by decide, by decide⟩⟩⟩]
  attributes := [⟨"id:", "", [], by decide, by decide, by decide, by decide, by simp⟩]
  ended := true
  title_not_break := by decide
  title_ne_blank := by decide
  description_lines := List.forall_mem_cons.mpr ⟨⟨by decide, by decide, by decide, by decide⟩,
    List.forall_mem_singleton.mpr ⟨by decide, by decide, by decide, by decide⟩⟩

theorem parse_widgetSource :
    parse widgetSource.text = ⟨"# Small.\n---", [("tags", "- # or : of # it")], [("id:", "")]⟩ ∧
      (parse widgetSource.text).description = "\n".intercalate widgetSource.description ∧
      Documented widgetSource.arguments (parse widgetSource.text).arguments ∧
      Documented widgetSource.attributes (parse widgetSource.text).attributes :=
  ⟨by decide +kernel, parse_source widgetSource⟩

end DocPage

end ProviderSdk
