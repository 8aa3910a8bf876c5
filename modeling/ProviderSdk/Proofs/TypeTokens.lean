import ProviderSdk.Proofs.Text.Pieces
import ProviderSdk.Token

/-!
# Reading type tokens

A text is a token if it has three parts, of which the first and the last are not empty, and the one
in the middle has a slash at most. Which of the two errors another text gives depends on the parts
alone. What is written is read back, part by part: an empty module part stays empty, and so does an
empty file stem.
-/

namespace ProviderSdk.Token

/-- What stands between the colons of a token. -/
def middle (t : Token) : String :=
  match t.fileStem with
  | some file => t.modulePart ++ "/" ++ file
  | none => t.modulePart

theorem render_eq (t : Token) : t.render = t.package ++ ":" ++ t.middle ++ ":" ++ t.name := by
  obtain ⟨package, modulePart, fileStem, name⟩ := t
  cases fileStem <;> simp [render, middle, String.append_assoc, toString]

structure Separated (t : Token) : Prop where
  package : ':' ∉ t.package.toList
  module : ':' ∉ t.modulePart.toList ∧ '/' ∉ t.modulePart.toList
  file : ∀ file, t.fileStem = some file → ':' ∉ file.toList ∧ '/' ∉ file.toList
  name : ':' ∉ t.name.toList

/-- A text with exactly two colons, a first and a last part that are not empty, and a part in the middle. -/
structure Consists (text package middle name : String) : Prop where
  text_eq : text = package ++ ":" ++ middle ++ ":" ++ name
  colons : text.toList.count ':' = 2
  package_ne : package ≠ ""
  name_ne : name ≠ ""

variable {text package middle name : String} {t u : Token}

theorem splitAt_colons (hpackage : ':' ∉ package.toList) (hmiddle : ':' ∉ middle.toList)
    (hname : ':' ∉ name.toList) :
    Text.splitAt ':' (package ++ ":" ++ middle ++ ":" ++ name).toList =
      [package.toList, middle.toList, name.toList] :=
  Text.splitAt_eq_iff.mpr ⟨by simp, by simp [hpackage, hmiddle, hname], by simp [Text.joinWith]⟩

theorem Consists.not_mem (h : Consists text package middle name) :
    ':' ∉ package.toList ∧ ':' ∉ middle.toList ∧ ':' ∉ name.toList := by
  obtain ⟨rfl, hcolons, -, -⟩ := h
  simp only [← List.count_eq_zero]
  simp [List.count_append] at hcolons
  omega

theorem consists_of_splitAt {first second third : List Char}
    (h : Text.splitAt ':' text.toList = [first, second, third]) (hfirst : first ≠ []) (hthird : third ≠ []) :
    Consists text (String.ofList first) (String.ofList second) (String.ofList third) where
  text_eq := by
    apply String.toList_injective
    rw [← Text.joinWith_splitAt ':' text.toList, h]
    simp [Text.joinWith]
  colons := by
    have hlength := Text.length_splitAt ':' text.toList
    simp [h] at hlength
    omega
  package_ne := by simpa using hfirst
  name_ne := by simpa using hthird

def ofMiddle (text package middle name : String) : Except TokenError Token :=
  match Text.splitAt '/' middle.toList with
  | [module] => .ok ⟨package, String.ofList module, none, name⟩
  | [module, file] => .ok ⟨package, String.ofList module, some (String.ofList file), name⟩
  | _ => .error (.nestedModule text)

theorem Consists.parse_eq (h : Consists text package middle name) :
    parse text = ofMiddle text package middle name := by
  have hfull : (package.toList.isEmpty || name.toList.isEmpty) = false := by
    simp [List.isEmpty_eq_false_iff, h.package_ne, h.name_ne]
  obtain ⟨hpackage, hmiddle, hname⟩ := h.not_mem
  rw [parse, show text.toList = _ from congrArg String.toList h.text_eq,
    splitAt_colons hpackage hmiddle hname]
  simp only [hfull, Bool.false_eq_true, if_false, String.ofList_toList]
  rfl

theorem parse_of_not_consists (h : ¬ ∃ package middle name, Consists text package middle name) :
    parse text = .error (.invalid text) := by
  rw [parse]
  split
  · next first second third hsplit =>
    apply if_pos
    rw [← Bool.not_eq_false]
    intro hfull
    rw [Bool.or_eq_false_iff, List.isEmpty_eq_false_iff, List.isEmpty_eq_false_iff] at hfull
    exact h ⟨_, _, _, consists_of_splitAt hsplit hfull.1 hfull.2⟩
  · rfl

theorem Consists.parse_cases (h : Consists text package middle name) :
    (middle.toList.count '/' ≤ 1 ∧ ∃ t, parse text = .ok t) ∨
      (1 < middle.toList.count '/' ∧ parse text = .error (.nestedModule text)) := by
  have hlength := Text.length_splitAt '/' middle.toList
  rw [h.parse_eq, ofMiddle]
  match Text.splitAt '/' middle.toList, hlength with
  | [], hlength => simp at hlength
  | [module], hlength => exact .inl ⟨by simp at hlength; omega, _, rfl⟩
  | [module, file], hlength => exact .inl ⟨by simp at hlength; omega, _, rfl⟩
  | _ :: _ :: _ :: _, hlength => exact .inr ⟨by simp at hlength; omega, rfl⟩

theorem Separated.not_mem_middle (h : t.Separated) : ':' ∉ t.middle.toList := by
  rw [Token.middle]
  cases hfile : t.fileStem with
  | none => exact h.module.1
  | some file => simp [h.module.1, (h.file file hfile).1]

theorem Separated.splitAt_render (h : t.Separated) :
    Text.splitAt ':' t.render.toList = [t.package.toList, t.middle.toList, t.name.toList] := by
  rw [render_eq]
  exact splitAt_colons h.package h.not_mem_middle h.name

theorem Separated.splitAt_middle (h : t.Separated) :
    Text.splitAt '/' t.middle.toList = t.modulePart.toList :: (t.fileStem.map String.toList).toList := by
  rw [Token.middle]
  cases hfile : t.fileStem with
  | none => exact Text.splitAt_of_not_mem h.module.2
  | some file =>
    exact Text.splitAt_eq_iff.mpr ⟨by simp, by simp [h.module.2, (h.file file hfile).2],
      by simp [Text.joinWith]⟩

theorem Separated.render_inj (ht : t.Separated) (hu : u.Separated) (h : t.render = u.render) : t = u := by
  have hparts := congrArg (fun text => Text.splitAt ':' text.toList) h
  simp only [ht.splitAt_render, hu.splitAt_render, List.cons.injEq, and_true, String.toList_inj] at hparts
  obtain ⟨hpackage, hmiddle, hname⟩ := hparts
  have hmodule := congrArg (fun text => Text.splitAt '/' text.toList) hmiddle
  simp only [ht.splitAt_middle, hu.splitAt_middle, List.cons.injEq, String.toList_inj] at hmodule
  obtain ⟨hmodule, hfile⟩ := hmodule
  have hfile := congrArg List.head? hfile
  rw [Option.head?_toList, Option.head?_toList] at hfile
  have hfile := Option.map_injective (fun _ _ => String.toList_injective) hfile
  cases t
  cases u
  exact Token.mk.injEq .. ▸ ⟨hpackage, hmodule, hfile, hname⟩

/-- A token that can be told apart where it is written. -/
structure Readable (t : Token) : Prop extends Separated t where
  package_ne : t.package ≠ ""
  name_ne : t.name ≠ ""

theorem Readable.consists (h : t.Readable) : Consists t.render t.package t.middle t.name where
  text_eq := t.render_eq
  colons := by
    have hlength := Text.length_splitAt ':' t.render.toList
    rw [h.splitAt_render] at hlength
    exact (Nat.succ.inj hlength).symm
  package_ne := h.package_ne
  name_ne := h.name_ne

/-- A token is read from a text if and only if it is written as that text and can be told apart there. -/
theorem parse_eq_ok_iff : parse text = .ok t ↔ t.Readable ∧ t.render = text := by
  constructor
  · intro h
    by_cases hparts : ∃ package middle name, Consists text package middle name
    · obtain ⟨package, middle, name, hparts⟩ := hparts
      obtain ⟨hpackage, hmiddle, hname⟩ := hparts.not_mem
      rw [hparts.parse_eq, ofMiddle] at h
      split at h
      · next module hsplit =>
        cases h
        obtain ⟨-, hslash, hjoin⟩ := Text.splitAt_eq_iff.mp hsplit
        simp [Text.joinWith] at hslash hjoin
        subst hjoin
        have hseparated : Separated ⟨package, String.ofList middle.toList, none, name⟩ :=
          ⟨hpackage, by simp [hmiddle, hslash], by simp, hname⟩
        exact ⟨⟨hseparated, hparts.package_ne, hparts.name_ne⟩,
          by simp [render_eq, Token.middle, hparts.text_eq]⟩
      · next module file hsplit =>
        cases h
        obtain ⟨-, hslash, hjoin⟩ := Text.splitAt_eq_iff.mp hsplit
        simp [Text.joinWith] at hslash hjoin
        rw [← hjoin] at hmiddle
        simp at hmiddle
        have hseparated : Separated ⟨package, String.ofList module, some (String.ofList file), name⟩ :=
          ⟨hpackage, by simp [hmiddle, hslash], by simp [hmiddle, hslash], hname⟩
        refine ⟨⟨hseparated, hparts.package_ne, hparts.name_ne⟩, String.toList_injective ?_⟩
        simp [render_eq, Token.middle, hparts.text_eq, ← hjoin]
      · cases h
    · rw [parse_of_not_consists hparts] at h
      cases h
  · rintro ⟨hreadable, rfl⟩
    rw [hreadable.consists.parse_eq, ofMiddle, hreadable.splitAt_middle]
    obtain ⟨package, module, file, name⟩ := t
    cases file <;> simp

/-- A text is read as a token if and only if it consists of three parts, of which the middle one has
at most one slash. If it has more, that is the error, and any other text is invalid; both errors
carry the text. What has been read is written as the text again, and read again it gives the same
token, as does a token of parts without the marks of the text. -/
theorem parse_accepts_grammar :
    (∀ text, (∃ t, parse text = .ok t) ↔
      ∃ package middle name, Consists text package middle name ∧ middle.toList.count '/' ≤ 1) ∧
    (∀ text e, parse text = .error e ↔
      (e = .nestedModule text ∧
        ∃ package middle name, Consists text package middle name ∧ 1 < middle.toList.count '/') ∨
      (e = .invalid text ∧ ¬ ∃ package middle name, Consists text package middle name)) ∧
    (∀ text t, parse text = .ok t → t.render = text ∧ parse t.render = .ok t) ∧
    ∀ package module name, package ≠ "" → name ≠ "" → (∀ part ∈ [package, module, name], ':' ∉ part.toList) →
      '/' ∉ module.toList → parse (of package module name).render = .ok (of package module name) := by
  refine ⟨fun text => ⟨?_, ?_⟩, fun text e => ⟨fun h => ?_, ?_⟩, fun text t h => ?_, ?_⟩
  · rintro ⟨t, h⟩
    obtain ⟨hreadable, rfl⟩ := parse_eq_ok_iff.mp h
    rcases hreadable.consists.parse_cases with ⟨hcount, -⟩ | ⟨-, herror⟩
    · exact ⟨_, _, _, hreadable.consists, hcount⟩
    · rw [herror] at h
      cases h
  · rintro ⟨package, middle, name, hparts, hcount⟩
    exact hparts.parse_cases.elim And.right (fun hnested => absurd hcount (by omega))
  · by_cases hparts : ∃ package middle name, Consists text package middle name
    · obtain ⟨package, middle, name, hparts⟩ := hparts
      rcases hparts.parse_cases with ⟨-, t, ht⟩ | ⟨hcount, herror⟩
      · rw [ht] at h
        cases h
      · rw [herror] at h
        cases h
        exact .inl ⟨rfl, package, middle, name, hparts, hcount⟩
    · rw [parse_of_not_consists hparts] at h
      cases h
      exact .inr ⟨rfl, hparts⟩
  · rintro (⟨rfl, package, middle, name, hparts, hcount⟩ | ⟨rfl, hparts⟩)
    · exact hparts.parse_cases.elim (fun hflat => absurd hflat.1 (by omega)) And.right
    · exact parse_of_not_consists hparts
  · obtain ⟨-, hrender⟩ := parse_eq_ok_iff.mp h
    exact ⟨hrender, hrender ▸ h⟩
  · intro package module name hpackage hname hcolons hslash
    simp only [List.forall_mem_cons, List.not_mem_nil, false_implies, implies_true, and_true] at hcolons
    have hseparated : (of package module name).Separated :=
      ⟨hcolons.1, ⟨hcolons.2.1, hslash⟩, by simp [of], hcolons.2.2⟩
    exact parse_eq_ok_iff.mpr ⟨⟨hseparated, hpackage, hname⟩, rfl⟩

theorem bucketToken_parse :
    parse "example:storage/:Bucket" = .ok ⟨"example", "storage", some "", "Bucket"⟩ ∧
    Token.render ⟨"example", "storage", some "", "Bucket"⟩ = "example:storage/:Bucket" ∧
    ("example" ≠ "" ∧ "Bucket/v2" ≠ "" ∧ (∀ part ∈ ["example", "", "Bucket/v2"], ':' ∉ part.toList) ∧
      '/' ∉ "".toList) ∧
    parse "example::Bucket/v2" = .ok (of "example" "" "Bucket/v2") := by
  have hparse : parse "example:storage/:Bucket" = .ok ⟨"example", "storage", some "", "Bucket"⟩ := rfl
  have hcolons : ∀ part ∈ ["example", "", "Bucket/v2"], ':' ∉ part.toList := by decide
  obtain ⟨-, -, hread, hbuilt⟩ := parse_accepts_grammar
  exact ⟨hparse, (hread _ _ hparse).1, ⟨by decide, by decide, hcolons, by decide⟩,
    hbuilt "example" "" "Bucket/v2" (by decide) (by decide) hcolons (by decide)⟩

example : parse "example:a/b/c:Widget" = .error (.nestedModule "example:a/b/c:Widget") ∧
    parse ":a/b/c:Widget" = .error (.invalid ":a/b/c:Widget") :=
  ⟨rfl, rfl⟩

end ProviderSdk.Token
