import Mathlib
import ProviderSdk.Proofs.Schema.NodePlaces
import ProviderSdk.Proofs.Text.Pieces

/-!
# Where complaints about nodes point

A complaint about a node of a schema points to the first place at which the quoted keys of the node
stand in the text one behind the other. The key of the node is such a place, so that there always is
one, at the key or before it; but keys are looked for wherever they stand, as keys of other members
or as strings.
-/

namespace ProviderSdk

open Json (quotedKey Layout MemberLayouts TextLayout IsPlainKey IsSpelling IsComma IsColon isGap_nil
  isSpelling_of_plain)
open Text (byteLength)

namespace Location

open Text (byteLength_append byteLength_le_of_isPrefix)

/-- Quoted keys stand in a text one behind the other, the last of them at an offset in bytes. -/
def InTurn : List String → List Char → Nat → Prop
  | [], _, _ => False
  | key :: keys, cs, offset => ∃ before behind, cs = before ++ (quotedKey key ++ behind) ∧
      ((keys = [] ∧ offset = byteLength before) ∨
        ∃ further, InTurn keys behind further ∧ offset = byteLength (before ++ quotedKey key) + further)

/-- Keys that stand in a text stand in it with something before it. -/
theorem InTurn.append {keys : List String} {cs : List Char} {offset : Nat} (h : InTurn keys cs offset)
    (lead : List Char) : InTurn keys (lead ++ cs) (byteLength lead + offset) := by
  cases keys with
  | nil => exact h.elim
  | cons key keys =>
    obtain ⟨before, behind, rfl, hlast⟩ := h
    refine ⟨lead ++ before, behind, by simp, ?_⟩
    rcases hlast with ⟨hnil, rfl⟩ | ⟨further, hfurther, rfl⟩
    · exact .inl ⟨hnil, (byteLength_append lead before).symm⟩
    · refine .inr ⟨further, hfurther, ?_⟩
      simp only [byteLength_append]
      omega

/-- The first occurrence of a part is found, if there is one. -/
theorem find?_cases {part : List Char} (hne : part ≠ []) (start : Nat) (cs : List Char) :
    (find? part start cs = none ∧ ∀ before behind, cs ≠ before ++ (part ++ behind)) ∨
      ∃ before behind, find? part start cs = some (start + byteLength before, behind) ∧
        cs = before ++ (part ++ behind) ∧
          ∀ before' behind', cs = before' ++ (part ++ behind') → before <+: before' := by
  induction cs generalizing start with
  | nil =>
    refine .inl ⟨by simp [find?, hne], fun before behind h => ?_⟩
    simp [hne] at h
  | cons c rest ih =>
    rw [find?]
    cases hstart : Text.afterStart? part (c :: rest) with
    | some behind =>
      have hcs : c :: rest = part ++ behind := Text.afterStart?_eq_some.mp hstart
      exact .inr ⟨[], behind, rfl, hcs, fun before' _ _ => List.nil_prefix⟩
    | none =>
      -- The part does not stand at the start, so that every occurrence is one in the rest.
      have hlater : ∀ before behind, c :: rest = before ++ (part ++ behind) →
          ∃ before', before = c :: before' ∧ rest = before' ++ (part ++ behind) := by
        intro before behind h
        cases before with
        | nil =>
          rw [List.nil_append] at h
          rw [Text.afterStart?_eq_some.mpr h] at hstart
          cases hstart
        | cons d before' =>
          obtain ⟨rfl, hrest⟩ := List.cons.inj h
          exact ⟨before', rfl, hrest⟩
      rcases ih (start + c.utf8Size) with ⟨hnone, hno⟩ | ⟨before, behind, hfound, hrest, hfirst⟩
      · refine .inl ⟨hnone, fun before behind h => ?_⟩
        obtain ⟨before', -, hrest⟩ := hlater before behind h
        exact hno before' behind hrest
      · refine .inr ⟨c :: before, behind, ?_, by rw [hrest]; rfl, fun before' behind' h => ?_⟩
        · rw [hfound]
          simp [byteLength, Nat.add_assoc]
        · obtain ⟨before'', rfl, hrest'⟩ := hlater before' behind' h
          exact (List.prefix_cons_inj c).mpr (hfirst before'' behind' hrest')

/-- What follows a later occurrence of a key follows an earlier one. -/
theorem exists_behind {before before' part behind behind' : List Char} (hle : before <+: before')
    (h : before ++ (part ++ behind) = before' ++ (part ++ behind')) :
    ∃ between, behind = between ++ behind' ∧ byteLength before' = byteLength before + byteLength between := by
  obtain ⟨between, rfl⟩ := hle
  rw [List.append_assoc, List.append_cancel_left_eq] at h
  have hsuffix : behind' <:+ part ++ behind := ⟨between ++ part, by simp [h]⟩
  have hlength := congrArg List.length h
  simp only [List.length_append] at hlength
  obtain ⟨between', rfl⟩ :=
    List.suffix_of_suffix_length_le hsuffix (List.suffix_append part behind) (by omega)
  have hbytes := congrArg byteLength h
  simp only [byteLength_append] at hbytes ⊢
  exact ⟨between', rfl, by omega⟩

/-- The span of keys is that of the last of them, at the first place where all stand one behind the other. -/
theorem spanOfKeys?_cases {keys : List String} (hne : keys ≠ []) (start : Nat) (cs : List Char) :
    (spanOfKeys? start (keys.map String.toList) cs = none ∧ ∀ offset, ¬ InTurn keys cs offset) ∨
      ∃ offset, spanOfKeys? start (keys.map String.toList) cs =
          some ⟨start + offset, byteLength (quotedKey (keys.getLast hne))⟩ ∧
        IsLeast {offset | InTurn keys cs offset} offset := by
  induction keys generalizing start cs with
  | nil => exact absurd rfl hne
  | cons key keys ih =>
    have hstep : spanOfKeys? start ((key :: keys).map String.toList) cs =
        (find? (quotedKey key) start cs).bind (fun found =>
          if (keys.map String.toList).isEmpty then some ⟨found.1, byteLength (quotedKey key)⟩
          else spanOfKeys? (found.1 + byteLength (quotedKey key)) (keys.map String.toList) found.2) := rfl
    rw [hstep]
    have hquoted : quotedKey key ≠ [] := List.cons_ne_nil _ _
    rcases find?_cases hquoted start cs with ⟨hnone, hno⟩ | ⟨before, behind, hfound, hcs, hfirst⟩
    · refine .inl ⟨by rw [hnone]; rfl, ?_⟩
      rintro offset ⟨before, behind, hcs, -⟩
      exact hno before behind hcs
    · rw [hfound, Option.bind_some]
      have hbehind : ∀ before' behind' further, cs = before' ++ (quotedKey key ++ behind') →
          InTurn keys behind' further → ∃ further', InTurn keys behind further' ∧
            byteLength (before' ++ quotedKey key) + further =
              byteLength (before ++ quotedKey key) + further' := by
        intro before' behind' further hcs' hfurther
        obtain ⟨between, rfl, hbytes⟩ := exists_behind (hfirst before' behind' hcs') (hcs.symm.trans hcs')
        refine ⟨_, hfurther.append between, ?_⟩
        simp only [byteLength_append]
        omega
      by_cases hlast : keys = []
      · subst hlast
        refine .inr ⟨byteLength before, rfl, ⟨before, behind, hcs, .inl ⟨rfl, rfl⟩⟩, ?_⟩
        rintro offset ⟨before', behind', hcs', ⟨-, rfl⟩ | ⟨_, hfurther, -⟩⟩
        · exact byteLength_le_of_isPrefix (hfirst before' behind' hcs')
        · exact hfurther.elim
      · have hempty : ¬ (keys.map String.toList).isEmpty = true := by simpa using hlast
        dsimp only
        rw [if_neg hempty, List.getLast_cons hlast]
        rcases ih hlast (start + byteLength before + byteLength (quotedKey key)) behind with
          ⟨hnone, hno⟩ | ⟨further, hspan, hmem, hleast⟩
        · refine .inl ⟨hnone, ?_⟩
          rintro offset ⟨before', behind', hcs', ⟨hnil, -⟩ | ⟨further, hfurther, -⟩⟩
          · exact hlast hnil
          · obtain ⟨further', hfurther', -⟩ := hbehind before' behind' further hcs' hfurther
            exact hno further' hfurther'
        · have hturn : InTurn (key :: keys) cs (byteLength (before ++ quotedKey key) + further) :=
            ⟨before, behind, hcs, .inr ⟨further, hmem, rfl⟩⟩
          refine .inr ⟨_, ?_, hturn, ?_⟩
          · rw [hspan, byteLength_append, Nat.add_assoc, Nat.add_assoc, Nat.add_assoc]
          · rintro offset ⟨before', behind', hcs', ⟨hnil, -⟩ | ⟨further', hfurther', rfl⟩⟩
            · exact absurd hnil hlast
            · obtain ⟨further'', hfurther'', hbytes⟩ := hbehind before' behind' further' hcs' hfurther'
              rw [hbytes]
              exact Nat.add_le_add_left (hleast hfurther'') _

end Location

/-- The key of a member that keys lead to is a place at which they stand one behind the other. -/
theorem Json.Layout.inTurn_before? {keys : List String} {l : Layout} {before : List Char}
    (h : l.before? keys = some before) (rest : List Char) :
    Location.InTurn keys (l.chars ++ rest) (byteLength before) := by
  induction keys generalizing l before rest with
  | nil => cases h
  | cons key keys ih =>
    obtain ⟨m, hm, hbefore⟩ := Option.bind_eq_some_iff.mp h
    obtain ⟨after, hchars⟩ := Json.Layout.exists_chars_eq hm
    refine ⟨m.before, m.colon ++ (m.value.chars ++ (after ++ rest)), by simp [hchars], ?_⟩
    split at hbefore
    · next hnil =>
      cases hbefore
      exact .inl ⟨hnil, rfl⟩
    · obtain ⟨inner, hinner, rfl⟩ := Option.map_eq_some_iff.mp hbefore
      refine .inr ⟨_, (ih hinner (after ++ rest)).append m.colon, ?_⟩
      simp only [Text.byteLength_append]
      omega

theorem Json.TextLayout.inTurn_before? {keys : List String} {t : TextLayout} {before : List Char}
    (h : t.before? keys = some before) : Location.InTurn keys t.chars (byteLength before) := by
  obtain ⟨inner, hinner, rfl⟩ := Option.map_eq_some_iff.mp h
  rw [Text.byteLength_append]
  exact (Json.Layout.inTurn_before? hinner t.trail).append t.lead

/-- The keys of a path are those that were put together, if none has a dot. -/
theorem splitAt_dotted {keys : List String} (hne : keys ≠ []) (hplain : ∀ key ∈ keys, IsPlainKey key) :
    Text.splitAt '.' (dotted keys).toList = keys.map String.toList := by
  have hsplit : Text.split '.' (dotted keys) = keys :=
    Text.split_intercalate hne (fun key hkey hdot => (hplain key hkey '.' hdot).1 rfl)
  have hpieces := congrArg (List.map String.toList) hsplit
  simpa [Text.split, Function.comp_def] using hpieces

/-- A complaint about a node is about one that makes no sense. -/
theorem Document.exists_node_of_malformed {source s : SourceText} {path reason : String}
    (h : Document.load source = .error (.malformedSchema s path reason)) :
    s = source ∧ ∃ w keys node, WireDocument.parse source.text = .ok w ∧ (keys, node) ∈ w.provider.nodes ∧
      node.fault?.isSome ∧ path = dotted keys := by
  cases hparse : WireDocument.parse source.text with
  | error e => simp [Document.load, hparse] at h
  | ok w =>
    obtain ⟨error, hfirst, heq⟩ := (Document.load_eq_error_iff hparse).mp h
    obtain ⟨before, keys, node, fault, after, hnodes, -, hfault, rfl⟩ :=
      PlacedNodes.firstError?_eq_some_iff.mp hfirst
    cases heq
    exact ⟨rfl, w, keys, node, rfl, by simp [hnodes], by simp [hfault], rfl⟩

/-- A span is that of the last of several quoted keys, at the first place in a text at which they
stand one behind the other. The last key of a member with `before` before it stands there or behind
it, and it is that key if and only if the keys do not stand one behind the other before. -/
structure Location.Span.Locates (span : Span) (keys : List String) (cs before : List Char) : Prop where
  length : ∃ key, keys.getLast? = some key ∧ span.length = byteLength (quotedKey key)
  first : IsLeast {offset | InTurn keys cs offset} span.offset
  le : span.offset ≤ byteLength before
  eq_iff : span.offset = byteLength before ↔ ∀ offset < byteLength before, ¬ InTurn keys cs offset

theorem Json.TextLayout.exists_span {t : TextLayout} {keys : List String} {before : List Char}
    (hne : keys ≠ []) (hplain : ∀ key ∈ keys, IsPlainKey key) (hbefore : t.before? keys = some before) :
    ∃ span, Location.spanOfPath? t.chars (dotted keys) = some span ∧ span.Locates keys t.chars before := by
  have hmember := Json.TextLayout.inTurn_before? hbefore
  rw [Location.spanOfPath?, splitAt_dotted hne hplain]
  rcases Location.spanOfKeys?_cases hne 0 t.chars with ⟨-, hno⟩ | ⟨offset, hfound, hleast⟩
  · exact absurd hmember (hno _)
  · rw [Nat.zero_add] at hfound
    refine ⟨_, hfound, ⟨_, List.getLast?_eq_some_getLast hne, rfl⟩, hleast, hleast.2 hmember, ?_⟩
    constructor
    · intro heq offset' hlt hturn
      have hle : offset ≤ offset' := hleast.2 hturn
      exact absurd (heq ▸ hle) (Nat.not_le.mpr hlt)
    · intro hfirst
      exact le_antisymm (hleast.2 hmember) (Nat.le_of_not_lt (fun hlt => hfirst offset hlt hleast.1))

/-- A document that is refused for a node that makes no sense is laid out in one way. If none of its
keys has a dot or needs to be escaped, the keys of the node lead to a member of it, unless they lead
to a record that is written as a list; and wherever they lead to a member, what is pointed to is the
first place at which the quoted keys stand one behind the other, which is the key of that member or
lies before it. -/
theorem Document.span_of_malformed {source s : SourceText} {path reason : String}
    (h : Document.load source = .error (.malformedSchema s path reason)) :
    ∃ (t : TextLayout) (w : WireDocument) (keys : List String) (node : WireNode),
      (t.WellFormed ∧ t.chars = source.text.toList ∧
        ∀ t' : TextLayout, t'.WellFormed → t'.chars = source.text.toList → t' = t) ∧
      (WireDocument.parse source.text = .ok w ∧ (keys, node) ∈ w.provider.nodes ∧ node.fault?.isSome ∧
        path = dotted keys) ∧
      (t.value.PlainKeys → (t.value.MeetsList keys ∨ ∃ before, t.before? keys = some before) ∧
        ∀ before, t.before? keys = some before →
          ∃ span, (LoadError.malformedSchema s path reason).span? = some span ∧
            span.Locates keys source.text.toList before) := by
  obtain ⟨rfl, w, keys, node, hparse, hnode, hfault, rfl⟩ := Document.exists_node_of_malformed h
  obtain ⟨t, ht, hchars, hleads⟩ := WireDocument.exists_layout hparse
  have hne : keys ≠ [] := WireProvider.keys_ne_nil hnode
  refine ⟨t, w, keys, node, ⟨ht, hchars, fun t' ht' hchars' => ht'.eq ht (hchars'.trans hchars.symm)⟩,
    ⟨hparse, hnode, hfault, rfl⟩, fun hplain => ⟨?_, fun before hbefore => ?_⟩⟩
  · rcases hleads hplain _ hnode with hnil | hlist | ⟨inner, hinner⟩
    · exact absurd hnil hne
    · exact .inl hlist
    · exact .inr ⟨t.lead ++ inner, by rw [TextLayout.before?, hinner, Option.map_some]⟩
  · obtain ⟨inner, hinner, -⟩ := Option.map_eq_some_iff.mp hbefore
    obtain ⟨span, hspan, hlocates⟩ := Json.TextLayout.exists_span hne (hplain.of_before? hinner) hbefore
    rw [hchars] at hspan hlocates
    exact ⟨span, hspan, hlocates⟩

/-- A document whose first field is described by the name of its second, a list that does not say
what it holds. -/
def describedByKey : SourceText :=
  ⟨"\x7b\"provider\":\x7b\"schema\":\x7b\"a\":\x7b\"type\":\"string\",\"description\":\"b\"\x7d," ++
    "\"b\":\x7b\"type\":\"list\"\x7d\x7d\x7d\x7d", "provider.json"⟩

def describedByKeyWritten : WireDocument :=
  { provider := { schema := [("a", ⟨"string", { description := "b" }, none⟩), ("b", ⟨"list", {}, none⟩)] } }

def describedByKeyLayout : TextLayout :=
  let string (s : String) : Layout := .scalar (quotedKey s)
  let a : Layout :=
    .object (.cons [] "type" [':'] (string "string") (.cons [','] "description" [':'] (string "b") .nil)) []
  let b : Layout := .object (.cons [] "type" [':'] (string "list") .nil) []
  let schema : Layout := .object (.cons [] "a" [':'] a (.cons [','] "b" [':'] b .nil)) []
  let provider : Layout := .object (.cons [] "schema" [':'] schema .nil) []
  ⟨[], .object (.cons [] "provider" [':'] provider .nil) [], []⟩

section DescribedByKey

set_option maxRecDepth 20000 in
theorem parse_describedByKey : WireDocument.parse describedByKey.text = .ok describedByKeyWritten := by cbv

theorem load_describedByKey : Document.load describedByKey =
    .error (.malformedSchema describedByKey "provider.schema.b" "list field has no element descriptor") := by
  rw [Document.load, parse_describedByKey]
  rfl

theorem isPlainKey_describedByKey :
    ∀ s ∈ ["provider", "schema", "a", "b", "type", "description", "string", "list"], IsPlainKey s := by
  simp [IsPlainKey]

theorem plainKeys_describedByKeyLayout : describedByKeyLayout.value.PlainKeys := by
  have hkeys := isPlainKey_describedByKey
  simp only [List.forall_mem_cons] at hkeys
  simp [describedByKeyLayout, Layout.PlainKeys, MemberLayouts.PlainKeys, hkeys]

theorem wellFormed_describedByKeyLayout : describedByKeyLayout.WellFormed := by
  have hspelling : ∀ s ∈ ["provider", "schema", "a", "b", "type", "description", "string", "list"],
      IsSpelling s.toList :=
    fun s hs => isSpelling_of_plain fun c hc => (isPlainKey_describedByKey s hs c hc).2
  simp only [List.forall_mem_cons] at hspelling
  obtain ⟨hprovider, hschema, ha, hb, htype, hdescription, hstring, hlist, -⟩ := hspelling
  have hcomma : IsComma [','] := ⟨[], [], isGap_nil, isGap_nil, rfl⟩
  have hcolon : IsColon [':'] := ⟨[], [], isGap_nil, isGap_nil, rfl⟩
  refine ⟨isGap_nil, ⟨⟨isGap_nil, hprovider, hcolon, ⟨⟨isGap_nil, hschema, hcolon, ⟨?_, isGap_nil⟩, trivial⟩,
    isGap_nil⟩, trivial⟩, isGap_nil⟩, isGap_nil⟩
  refine ⟨isGap_nil, ha, hcolon, ⟨?_, isGap_nil⟩, hcomma, hb, hcolon, ⟨?_, isGap_nil⟩, trivial⟩
  · exact ⟨isGap_nil, htype, hcolon, .string hstring, hcomma, hdescription, hcolon, .string hb, trivial⟩
  · exact ⟨isGap_nil, htype, hcolon, .string hlist, trivial⟩

theorem chars_describedByKeyLayout : describedByKeyLayout.chars = describedByKey.text.toList := by
  decide +kernel

/-- The key of the list stands behind sixty-three bytes. -/
theorem exists_before_describedByKeyLayout : ∃ before,
    describedByKeyLayout.before? ["provider", "schema", "b"] = some before ∧ byteLength before = 63 :=
  Option.map_eq_some_iff.mp
    (show (describedByKeyLayout.before? ["provider", "schema", "b"]).map byteLength =
      some 63 by decide +kernel)

theorem span_describedByKey :
    Location.spanOfPath? describedByKey.text.toList "provider.schema.b" = some ⟨58, 3⟩ := by
  decide +kernel

/-- The list is the only node of the document that makes no sense. -/
theorem keys_of_fault_describedByKey {keys : List String} {node : WireNode}
    (hnode : (keys, node) ∈ describedByKeyWritten.provider.nodes) (hfault : node.fault?.isSome) :
    keys = ["provider", "schema", "b"] := by
  have hnodes : describedByKeyWritten.provider.nodes =
      [(["provider", "schema", "a"], .field ⟨"string", { description := "b" }, none⟩),
        (["provider", "schema", "b"], .field ⟨"list", {}, none⟩)] := rfl
  simp only [hnodes, List.mem_cons, Prod.mk.injEq, List.not_mem_nil, or_false] at hnode
  rcases hnode with ⟨-, rfl⟩ | ⟨rfl, -⟩
  · exact absurd hfault (by decide)
  · rfl

/-- The description of the first field is what is pointed to, or the key of the list: it is the
first place at which the keys stand one behind the other. -/
theorem Document.span_describedByKey_locates :
    ∃ before span, describedByKeyLayout.before? ["provider", "schema", "b"] = some before ∧
      (LoadError.malformedSchema describedByKey "provider.schema.b"
        "list field has no element descriptor").span? =
        some span ∧
      span.Locates ["provider", "schema", "b"] describedByKey.text.toList before := by
  obtain ⟨t, w, keys, node, ⟨-, -, hunique⟩, ⟨hparse, hnode, hfault, -⟩, hspan⟩ :=
    Document.span_of_malformed load_describedByKey
  obtain rfl := hunique _ wellFormed_describedByKeyLayout chars_describedByKeyLayout
  obtain rfl : describedByKeyWritten = w := Except.ok.inj (parse_describedByKey.symm.trans hparse)
  obtain rfl := keys_of_fault_describedByKey hnode hfault
  obtain ⟨before, hbefore, -⟩ := exists_before_describedByKeyLayout
  obtain ⟨span, hfound, hlocates⟩ := (hspan plainKeys_describedByKeyLayout).2 before hbefore
  exact ⟨before, span, hbefore, hfound, hlocates⟩

/-- The complaint about the list points to the description of the field before it, five bytes before
the key. -/
theorem Document.span_misses_key :
    (describedByKeyLayout.WellFormed ∧ describedByKeyLayout.chars = describedByKey.text.toList ∧
      describedByKeyLayout.value.PlainKeys) ∧
    Document.load describedByKey =
      .error (.malformedSchema describedByKey "provider.schema.b" "list field has no element descriptor") ∧
    (LoadError.malformedSchema describedByKey "provider.schema.b"
      "list field has no element descriptor").span? =
      some ⟨58, 3⟩ ∧
    ∃ before, describedByKeyLayout.before? ["provider", "schema", "b"] = some before ∧
      byteLength before = 63 := by
  exact ⟨⟨wellFormed_describedByKeyLayout, chars_describedByKeyLayout, plainKeys_describedByKeyLayout⟩,
    load_describedByKey, span_describedByKey, exists_before_describedByKeyLayout⟩

end DescribedByKey

end ProviderSdk
