import ProviderSdk.Proofs.Decimal.Layout
import ProviderSdk.Proofs.Json.Strings
import ProviderSdk.Proofs.Text.Pieces
import ProviderSdk.Version.Serialized

/-!
# Reading versions

A text is a version if it can be spelt as one: with or without a prefix, three numerals, a tag and
build metadata. The tag ends at the first plus sign and begins at the first hyphen before it, so
that the parts of a spelling are the ones that are read. A version is read back from its own text,
and from its JSON form, unless its tag cannot be told apart there.
-/

namespace ProviderSdk.Version

def numeralValue (digits : String) : Nat := Nat.ofDigitChars 10 digits.toList 0

structure IsNumeral (digits : String) : Prop where
  ne : digits ≠ ""
  isDigit : ∀ c ∈ digits.toList, c.isDigit = true
  fits : numeralValue digits < 2 ^ 32

def marked (mark : Char) : Option String → String
  | some part => String.singleton mark ++ part
  | none => ""

/-- The parts of a written version. -/
structure Spelling where
  prefixed : Bool
  major : String
  minor : String
  patch : String
  prerelease : Option String
  build : Option String

namespace Spelling

def core (s : Spelling) : String := s.major ++ "." ++ s.minor ++ "." ++ s.patch

def body (s : Spelling) : String := s.core ++ marked '-' s.prerelease ++ marked '+' s.build

def text (s : Spelling) : String := (if s.prefixed then "v" else "") ++ s.body

/-- The version whose parts are those of a spelling. Its build metadata is no part of it. -/
def version (s : Spelling) : Version where
  major := .ofNat (numeralValue s.major)
  minor := .ofNat (numeralValue s.minor)
  patch := .ofNat (numeralValue s.patch)
  prerelease := s.prerelease

structure WellFormed (s : Spelling) : Prop where
  major : IsNumeral s.major
  minor : IsNumeral s.minor
  patch : IsNumeral s.patch
  prerelease : ∀ tag ∈ s.prerelease, tag ≠ "" ∧ '+' ∉ tag.toList

end Spelling

section

variable {digits : String} {c : Char}

theorem IsNumeral.not_mem (h : IsNumeral digits) (hc : c.isDigit = false) : c ∉ digits.toList := by
  intro hmem
  rw [h.isDigit c hmem] at hc
  cases hc

theorem numeralValue_eq (digits : String) : Decimal.digitsValue 0 digits.toList = numeralValue digits :=
  Decimal.digitsValue_eq_ofDigitChars 0 _

theorem isNumeral_iff : IsNumeral digits ↔
    (digits.toList.isEmpty || !digits.toList.all Char.isDigit) = false ∧ numeralValue digits < 2 ^ 32 := by
  have hform : (digits.toList.isEmpty || !digits.toList.all Char.isDigit) = false ↔
      digits ≠ "" ∧ ∀ c ∈ digits.toList, c.isDigit = true := by
    simp [List.isEmpty_eq_false_iff]
  rw [hform]
  exact ⟨fun h => ⟨⟨h.ne, h.isDigit⟩, h.fits⟩, fun h => ⟨h.1.1, h.1.2, h.2⟩⟩

/-- Reading a numeral would accept a plus sign, which no numeral of a version has. -/
theorem parseNat?_of_not_mem {bound : Nat} (hsign : '+' ∉ digits.toList) : Decimal.parseNat? bound digits =
    if digits.toList.isEmpty || !digits.toList.all Char.isDigit then none
    else if numeralValue digits < bound then some (numeralValue digits) else none := by
  have hunsigned {rest : List Char} (h : digits.toList = '+' :: rest) : False := by
    rw [h] at hsign
    exact hsign List.mem_cons_self
  unfold Decimal.parseNat?
  split
  · next h => exact (hunsigned h).elim
  · rw [← numeralValue_eq]

theorem number_eq_ok_iff {part : VersionPart} {n : UInt32} (hsign : '+' ∉ digits.toList) :
    number part digits.toList = .ok n ↔ IsNumeral digits ∧ .ofNat (numeralValue digits) = n := by
  rw [number, String.ofList_toList, parseNat?_of_not_mem hsign, isNumeral_iff]
  cases digits.toList.isEmpty || !digits.toList.all Char.isDigit with
  | true => simp
  | false =>
    rw [if_neg Bool.false_ne_true, Nat.pow_eq]
    by_cases hfits : numeralValue digits < 2 ^ 32
    · rw [if_pos hfits]
      exact ⟨fun h => ⟨⟨rfl, hfits⟩, Except.ok.inj h⟩, fun h => congrArg _ h.2⟩
    · rw [if_neg hfits]
      exact ⟨fun h => (by cases h), fun h => absurd h.1.2 hfits⟩

theorem IsNumeral.number_eq (h : IsNumeral digits) (part : VersionPart) :
    number part digits.toList = .ok (.ofNat (numeralValue digits)) :=
  (number_eq_ok_iff (h.not_mem rfl)).mpr ⟨h, rfl⟩

theorem isNumeral_toString (n : UInt32) :
    IsNumeral (toString n) ∧ .ofNat (numeralValue (toString n)) = n := by
  have hchars : (toString n).toList = Decimal.digitsOf n.toNat := Nat.toList_repr
  have hvalue : numeralValue (toString n) = n.toNat := by
    rw [numeralValue, hchars, ← Decimal.digitsValue_eq_ofDigitChars, Decimal.digitsValue_digitsOf]
  refine ⟨⟨?_, ?_, ?_⟩, ?_⟩
  · rw [Ne, ← String.toList_eq_nil_iff, hchars]
    exact Decimal.digitsOf_ne_nil _
  · rw [hchars]
    exact fun c => Decimal.isDigit_of_mem_digitsOf
  · rw [hvalue]
    exact n.toNat_lt
  · rw [hvalue, UInt32.ofNat_toNat]

end

section

variable {mark : Char} {before core rest : List Char} {part tag build : Option String}
  {text : String} {v : Version}

theorem toList_marked_some (mark : Char) (part : String) :
    (marked mark (some part)).toList = mark :: part.toList := by
  simp [marked]

theorem forall_beq_eq_false_iff {cs : List Char} : (∀ c ∈ cs, (c == mark) = false) ↔ mark ∉ cs := by
  simp only [beq_eq_false_iff_ne, List.forall_mem_ne']

/-- A text is cut at the first of its marks. -/
theorem exists_marked (mark : Char) (cs : List Char) :
    ∃ before part, mark ∉ before ∧ cs = before ++ (marked mark part).toList := by
  cases hcut : Text.cutAt? (· == mark) cs with
  | none =>
    exact ⟨cs, none, forall_beq_eq_false_iff.mp (Text.cutAt?_eq_none_iff.mp hcut), (List.append_nil cs).symm⟩
  | some parts =>
    obtain ⟨before, after⟩ := parts
    obtain ⟨sep, rfl, hsep, hbefore⟩ := Text.cutAt?_eq_some_iff.mp hcut
    refine ⟨before, some (String.ofList after), forall_beq_eq_false_iff.mp hbefore, ?_⟩
    rw [toList_marked_some, String.toList_ofList, beq_iff_eq.mp hsep]

theorem takeWhile_append_marked (hbefore : mark ∉ before) (part : Option String) :
    (before ++ (marked mark part).toList).takeWhile (· != mark) = before := by
  refine (Decimal.takeWhile_dropWhile_append (fun c hc => ?_) (fun c hc => ?_)).1
  · exact bne_iff_ne.mpr (fun heq => hbefore (heq ▸ hc))
  · cases part with
    | none => cases hc
    | some part =>
      rw [toList_marked_some] at hc
      cases hc
      exact bne_self_eq_false mark

def unprefixed (cs : List Char) : List Char :=
  match cs with
  | 'v' :: rest => rest
  | _ => cs

def ofCore (text : String) (core : List Char) (tag : Option String) : Except VersionError Version :=
  match Text.splitAt '.' core with
  | [major, minor, patch] => do
    let major ← number .major major
    let minor ← number .minor minor
    let patch ← number .patch patch
    pure ⟨major, minor, patch, tag⟩
  | _ => .error (.notThreeParts text)

/-- Reading goes on from here once the prefix and the build metadata are cut off. -/
def ofFront (text : String) (front : List Char) : Except VersionError Version :=
  match Text.cutAt? (· == '-') front with
  | some (_, []) => .error (.emptyPrerelease text)
  | some (core, tag) => ofCore text core (some (String.ofList tag))
  | none => ofCore text front none

theorem parse_eq (text : String) :
    parse text = ofFront text ((unprefixed text.toList).takeWhile (· != '+')) := rfl

theorem exists_unprefixed (cs : List Char) :
    ∃ prefixed : Bool, cs = (if prefixed then ['v'] else []) ++ unprefixed cs := by
  unfold unprefixed
  split
  · exact ⟨true, rfl⟩
  · exact ⟨false, rfl⟩

theorem unprefixed_append (prefixed : Bool) {cs : List Char} (h : cs.head? ≠ some 'v') :
    unprefixed ((if prefixed then ['v'] else []) ++ cs) = cs := by
  cases prefixed with
  | true => rfl
  | false =>
    rw [if_neg Bool.false_ne_true, List.nil_append]
    unfold unprefixed
    split
    · exact absurd rfl h
    · rfl

theorem ofFront_append_marked (text : String) (hcore : '-' ∉ core) (tag : Option String) :
    ofFront text (core ++ (marked '-' tag).toList) =
      if tag = some "" then .error (.emptyPrerelease text) else ofCore text core tag := by
  have hcore := forall_beq_eq_false_iff.mpr hcore
  cases tag with
  | none => simp [ofFront, marked, Text.cutAt?_eq_none_iff.mpr hcore]
  | some tag =>
    rw [ofFront, toList_marked_some, Text.cutAt?_append hcore (beq_self_eq_true '-')]
    cases htag : tag.toList with
    | nil => simp [String.toList_eq_nil_iff.mp htag]
    | cons c rest =>
      have hne : tag ≠ "" := by
        rintro rfl
        cases htag
      simp only [← htag, String.ofList_toList, Option.some.injEq, hne, if_false]

theorem ofCore_eq_ok_iff (hsign : '+' ∉ core) : ofCore text core tag = .ok v ↔
    ∃ major minor patch, IsNumeral major ∧ IsNumeral minor ∧ IsNumeral patch ∧
      core = (major ++ "." ++ minor ++ "." ++ patch).toList ∧
      v = ⟨.ofNat (numeralValue major), .ofNat (numeralValue minor), .ofNat (numeralValue patch), tag⟩ := by
  have hstring (cs : List Char) : ∃ s : String, s.toList = cs := ⟨String.ofList cs, String.toList_ofList⟩
  constructor
  · intro h
    rw [ofCore] at h
    split at h
    · next major minor patch hsplit =>
      obtain ⟨-, -, rfl⟩ := Text.splitAt_eq_iff.mp hsplit
      obtain ⟨major, rfl⟩ := hstring major
      obtain ⟨minor, rfl⟩ := hstring minor
      obtain ⟨patch, rfl⟩ := hstring patch
      simp only [Text.joinWith, List.mem_append, not_or] at hsign
      obtain ⟨x, hx, h⟩ := bind_eq_ok.mp h
      obtain ⟨y, hy, h⟩ := bind_eq_ok.mp h
      obtain ⟨z, hz, h⟩ := bind_eq_ok.mp h
      cases h
      obtain ⟨hmajor, rfl⟩ := (number_eq_ok_iff hsign.1.1).mp hx
      obtain ⟨hminor, rfl⟩ := (number_eq_ok_iff hsign.2.1.1).mp hy
      obtain ⟨hpatch, rfl⟩ := (number_eq_ok_iff hsign.2.2).mp hz
      exact ⟨major, minor, patch, hmajor, hminor, hpatch, by simp [Text.joinWith], rfl⟩
    · cases h
  · rintro ⟨major, minor, patch, hmajor, hminor, hpatch, rfl, rfl⟩
    have hsplit : Text.splitAt '.' (major ++ "." ++ minor ++ "." ++ patch).toList =
        [major.toList, minor.toList, patch.toList] := by
      refine Text.splitAt_eq_iff.mpr ⟨by simp, ?_, by simp [Text.joinWith]⟩
      simp [hmajor.not_mem, hminor.not_mem, hpatch.not_mem]
    rw [ofCore, hsplit]
    simp only [hmajor.number_eq, hminor.number_eq, hpatch.number_eq]
    rfl

theorem Spelling.toList_text (s : Spelling) : s.text.toList =
    (if s.prefixed then ['v'] else []) ++
      (s.core.toList ++ (marked '-' s.prerelease).toList ++ (marked '+' s.build).toList) := by
  rw [text, body]
  cases s.prefixed <;> simp

theorem Spelling.WellFormed.not_mem_core {s : Spelling} (hs : s.WellFormed) {c : Char}
    (hc : c.isDigit = false) (hpoint : c ≠ '.') : c ∉ s.core.toList := by
  simp [core, hs.major.not_mem hc, hs.minor.not_mem hc, hs.patch.not_mem hc, hpoint]

theorem Spelling.WellFormed.parse_text {s : Spelling} (hs : s.WellFormed) : parse s.text = .ok s.version := by
  have hstart : (s.core.toList ++ (marked '-' s.prerelease).toList ++
      (marked '+' s.build).toList).head? ≠ some 'v' := by
    intro hhead
    have hcore : s.core.toList ≠ [] := by simp [core]
    rw [List.append_assoc, List.head?_append_of_ne_nil _ hcore] at hhead
    exact hs.not_mem_core (by decide) (by decide) (List.mem_of_mem_head? hhead)
  have hplus : '+' ∉ s.core.toList ++ (marked '-' s.prerelease).toList := by
    rw [List.mem_append, not_or]
    refine ⟨hs.not_mem_core (by decide) (by decide), ?_⟩
    cases htag : s.prerelease with
    | none => simp [marked]
    | some tag => simp [marked, (hs.prerelease tag htag).2]
  have htag : s.prerelease ≠ some "" := fun h => (hs.prerelease "" h).1 rfl
  rw [parse_eq, toList_text, unprefixed_append _ hstart, takeWhile_append_marked hplus,
    ofFront_append_marked _ (hs.not_mem_core (by decide) (by decide)), if_neg htag]
  exact (ofCore_eq_ok_iff (hs.not_mem_core (by decide) (by decide))).mpr
    ⟨s.major, s.minor, s.patch, hs.major, hs.minor, hs.patch, rfl, rfl⟩

theorem exists_spelling (h : parse text = .ok v) :
    ∃ s : Spelling, s.WellFormed ∧ s.text = text ∧ s.version = v := by
  -- The parts are cut off from the outside in, each at the first of its marks.
  obtain ⟨prefixed, htext⟩ := exists_unprefixed text.toList
  obtain ⟨front, build, hplus, hfront⟩ := exists_marked '+' (unprefixed text.toList)
  obtain ⟨core, tag, hhyphen, rfl⟩ := exists_marked '-' front
  rw [parse_eq, hfront, takeWhile_append_marked hplus, ofFront_append_marked text hhyphen] at h
  split at h
  · cases h
  next htag =>
  rw [List.mem_append, not_or] at hplus
  obtain ⟨major, minor, patch, hmajor, hminor, hpatch, rfl, rfl⟩ := (ofCore_eq_ok_iff hplus.1).mp h
  refine ⟨⟨prefixed, major, minor, patch, tag, build⟩, ⟨hmajor, hminor, hpatch, ?_⟩, ?_, rfl⟩
  · rintro tag rfl
    refine ⟨fun heq => htag (by rw [heq]), fun hmem => hplus.2 ?_⟩
    rw [toList_marked_some]
    exact List.mem_cons_of_mem _ hmem
  · apply String.toList_injective
    rw [Spelling.toList_text, htext, hfront]
    rfl

end

def spelling (v : Version) : Spelling where
  prefixed := false
  major := toString v.major
  minor := toString v.minor
  patch := toString v.patch
  prerelease := v.prerelease
  build := none

theorem spelling_text (v : Version) : v.spelling.text = v.render := by
  obtain ⟨major, minor, patch, prerelease⟩ := v
  cases prerelease <;> simp [spelling, Spelling.text, Spelling.body, Spelling.core, render, base,
    marked, toString, String.append_assoc]

theorem spelling_version (v : Version) : v.spelling.version = v := by
  rw [Spelling.version]
  simp only [spelling, (isNumeral_toString _).2]

theorem parse_render_iff {v : Version} :
    parse v.render = .ok v ↔ ∀ tag ∈ v.prerelease, tag ≠ "" ∧ '+' ∉ tag.toList := by
  constructor
  · intro h
    obtain ⟨s, hs, -, rfl⟩ := exists_spelling h
    exact hs.prerelease
  · intro htag
    have hspelling : v.spelling.WellFormed :=
      ⟨(isNumeral_toString _).1, (isNumeral_toString _).1, (isNumeral_toString _).1, htag⟩
    rw [← spelling_text, hspelling.parse_text, spelling_version]

theorem ofJsonText_render_toJson {v w : Version} :
    ofJsonText v.toJson.render = .ok w ↔ parse v.render = .ok w := by
  have htext : Json.Reader.Yields Json.Reader.text v.toJson.render.toList v.render [] := by
    have hquoted := Json.Reader.yields_text v.render.toList []
    rwa [List.append_nil, ← Json.toList_quoted, String.ofList_toList] at hquoted
  constructor
  · intro h
    refine htext.gives_of_run_bind (P := fun w => parse v.render = .ok w) ?_ h
    split
    · next u hu => exact Json.Reader.gives_pure hu
    · exact Json.Reader.gives_mismatch
  · intro h
    refine (htext.bind ?_).run
    rw [h]
    exact Json.Reader.yields_pure w []

/-- A text is a version if and only if it is spelt as one, and then its parts are those of the
spelling. A version that has been read is written as a text that is read as the same version. Any
version is read back from its JSON form if and only if its tag, if it has one, is neither empty nor
has a plus sign. -/
theorem parse_accepts_spellings :
    (∀ text v, parse text = .ok v ↔ ∃ s : Spelling, s.WellFormed ∧ s.text = text ∧ s.version = v) ∧
    (∀ text v, parse text = .ok v → parse v.render = .ok v) ∧
    (∀ major minor patch, ofJsonText (release major minor patch).toJson.render =
      .ok (release major minor patch)) ∧
    ∀ v tag, ofJsonText (withPrerelease v tag).toJson.render = .ok (withPrerelease v tag) ↔
      tag ≠ "" ∧ '+' ∉ tag.toList := by
  refine ⟨fun text v => ⟨exists_spelling, ?_⟩, fun text v h => ?_,
    fun major minor patch => ?_, fun v tag => ?_⟩
  · rintro ⟨s, hs, rfl, rfl⟩
    exact hs.parse_text
  · obtain ⟨s, hs, -, rfl⟩ := exists_spelling h
    exact parse_render_iff.mpr hs.prerelease
  · rw [ofJsonText_render_toJson, parse_render_iff]
    exact fun tag htag => by cases htag
  · rw [ofJsonText_render_toJson, parse_render_iff]
    exact ⟨fun h => h tag rfl, fun h tag' htag' => Option.some.inj htag' ▸ h⟩

theorem alphaVersion_reread :
    parse "v0.5.0-alpha.1+abc" = .ok (withPrerelease (release 0 5 0) "alpha.1") ∧
    parse (withPrerelease (release 0 5 0) "alpha.1").render =
      .ok (withPrerelease (release 0 5 0) "alpha.1") := by
  have hparse : parse "v0.5.0-alpha.1+abc" = .ok (withPrerelease (release 0 5 0) "alpha.1") := rfl
  exact ⟨hparse, parse_accepts_spellings.2.1 _ _ hparse⟩

/-- The first plus sign begins the build metadata, before a hyphen or in front of a number as well. -/
example :
    parse "1.2.3+build-4" = .ok (release 1 2 3) ∧ parse "1.2.3-+4" = .error (.emptyPrerelease "1.2.3-+4") ∧
    parse "1.+2.3" = .error (.notThreeParts "1.+2.3") :=
  ⟨rfl, rfl, rfl⟩

end ProviderSdk.Version
