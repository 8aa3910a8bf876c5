import Mathlib.Data.List.Induction
import ProviderSdk.Proofs.Text.Identifiers
import ProviderSdk.Text.Prose

/-!
# Singulars

The ending of a noun is looked at in lower case, and what is cut off is cut off the noun itself, in
as many bytes as it has letters. In lower case a noun may have more bytes than it had, or fewer. But
the letters that are cut off, `e` and `s`, are small forms of themselves and of their capitals only,
so that each of them is one byte of the noun, and every cut falls between two characters. What is
left never ends as a plural, and what does not end as a plural is left as it is: a singular is its
own singular.
-/

namespace ProviderSdk.Text

variable {c letter : Char} {cs stem tail back : List Char}

def IsPluralLetter (c : Char) : Prop := c = 'e' ∨ c = 's'

/-- They are small forms of no character beyond ASCII. -/
theorem IsPluralLetter.not_mem_lowerOf (hletter : IsPluralLetter letter) (hc : 128 ≤ c.toNat) :
    letter ∉ lowerOf c := by
  intro h
  have hlong : ∀ e ∈ CaseTable.toLowerLong, ∀ code ∈ e.2, ¬ IsPluralLetter (Char.ofNat code) := by
    simp only [IsPluralLetter]
    decide
  -- No run is moved over the code of one of the letters.
  have hshift : ∀ s ∈ CaseTable.toLower,
      (s.run.last + s.distance < 101 ∨ 101 < s.run.first + s.distance) ∧
        (s.run.last + s.distance < 115 ∨ 115 < s.run.first + s.distance) := by
    decide +kernel
  have hcode : letter.toNat = 101 ∨ letter.toNat = 115 :=
    hletter.imp (congrArg Char.toNat) (congrArg Char.toNat)
  obtain ⟨e, he, code, hmem, rfl⟩ | hshifted := mem_lowerOf_beyond hc h
  · exact hlong e he code hmem hletter
  · have hvalue := congrArg Char.toNat hshifted
    rw [toNat_ofNat] at hvalue
    obtain hstays | ⟨s, hs, hfirst, hlast, hmoves⟩ := CaseTable.shifted_cases CaseTable.toLower c.toNat
    · split at hvalue <;> omega
    · have hbounds := hshift s hs
      split at hvalue <;> omega

/-- A character whose small form has such a letter is one byte, and its small form is the letter. -/
theorem IsPluralLetter.lowerOf_eq (hletter : IsPluralLetter letter) (h : letter ∈ lowerOf c) :
    lowerOf c = [letter] ∧ c.utf8Size = 1 := by
  rcases Nat.lt_or_ge c.toNat 128 with hascii | hbeyond
  · have hlower : lowerOf c = [c.toLower] := if_pos hascii
    rw [hlower] at h ⊢
    have hbyte : c.val ≤ 127 := UInt32.le_iff_toNat_le.mpr (Nat.le_of_lt_succ hascii)
    exact ⟨by rw [List.mem_singleton.mp h], Char.utf8Size_eq_one_iff.mpr hbyte⟩
  · exact absurd h (hletter.not_mem_lowerOf hbeyond)

/-- A text that ends in such a letter in lower case ends in one byte that stands for it. -/
theorem exists_concat_of_suffix (hletter : IsPluralLetter letter) (h : stem ++ [letter] <:+ lowerAll cs) :
    ∃ front c, cs = front ++ [c] ∧ c.utf8Size = 1 ∧ lowerOf c = [letter] ∧ stem <:+ lowerAll front := by
  obtain rfl | ⟨front, c, rfl⟩ := List.eq_nil_or_concat' cs
  · simp [lowerAll] at h
  · rw [lowerAll_append, lowerAll, lowerAll, List.flatMap_singleton] at h
    have hmem : letter ∈ lowerOf c := by
      obtain ⟨before, last, hlast⟩ :=
        (List.eq_nil_or_concat' (lowerOf c)).resolve_left (keepsMarks_lowerOf.ne_nil c)
      obtain ⟨rest, hrest⟩ := h
      rw [hlast, ← List.append_assoc, ← List.append_assoc] at hrest
      rw [hlast, List.singleton_inj.mp (List.append_inj' hrest rfl).2]
      exact List.mem_append_right _ (List.mem_singleton_self _)
    obtain ⟨hlower, hbyte⟩ := hletter.lowerOf_eq hmem
    rw [hlower, List.suffix_append_self_iff] at h
    exact ⟨front, c, rfl, hbyte, hlower, h⟩

/-- What is left of a text when its end in lower case is cut off. Every letter of the end is one
byte of the text. -/
theorem exists_append_of_suffix (htail : ∀ letter ∈ tail, IsPluralLetter letter)
    (h : stem ++ tail <:+ lowerAll cs) :
    ∃ front back, cs = front ++ back ∧ back.length = tail.length ∧ byteLength back = tail.length ∧
      lowerAll back = tail ∧ stem <:+ lowerAll front := by
  induction tail using List.reverseRecOn generalizing cs with
  | nil => exact ⟨cs, [], (List.append_nil cs).symm, rfl, rfl, rfl, by rwa [List.append_nil] at h⟩
  | append_singleton tail letter ih =>
    obtain ⟨htail, hletter⟩ := List.forall_mem_append.mp htail
    rw [← List.append_assoc] at h
    obtain ⟨shorter, c, rfl, hbyte, hlower, h⟩ :=
      exists_concat_of_suffix (hletter letter (List.mem_singleton_self _)) h
    obtain ⟨front, back, rfl, hlength, hbytes, hback, hstem⟩ := ih htail h
    refine ⟨front, back ++ [c], List.append_assoc _ _ _, ?_, ?_, ?_, hstem⟩
    · rw [List.length_append, List.length_append, hlength]
      rfl
    · rw [byteLength_append, List.length_append, hbytes]
      exact congrArg (tail.length + ·) hbyte
    · rw [lowerAll_append, hback, lowerAll, List.flatMap_singleton, hlower]

def esEndings : List String := ["sses", "xes", "ches", "shes"]

def singularEndings : List String := ["ss", "us", "is"]

def EndsInEs (low : List Char) : Prop := ∃ ending ∈ esEndings, ending.toList <:+ low

def EndsInPluralS (low : List Char) : Prop :=
  "s".toList <:+ low ∧ ∀ ending ∈ singularEndings, ¬ ending.toList <:+ low

instance (low : List Char) : Decidable (EndsInEs low) := inferInstanceAs (Decidable (∃ _ ∈ _, _))

instance (low : List Char) : Decidable (EndsInPluralS low) := inferInstanceAs (Decidable (_ ∧ _))

theorem endsInLower_iff {ending : String} : endsInLower ending cs = true ↔ ending.toList <:+ lowerAll cs := by
  rw [endsInLower, Option.isSome_iff_exists]
  simp only [beforeEnd?_eq_some]
  exact ⟨fun ⟨before, heq⟩ => ⟨before, heq.symm⟩, fun ⟨before, heq⟩ => ⟨before, heq.symm⟩⟩

theorem singularByEnding_eq (cs : List Char) : singularByEnding cs =
    if EndsInEs (lowerAll cs) then dropLast 2 cs
    else if EndsInPluralS (lowerAll cs) then dropLast 1 cs
    else cs := by
  have hes : (endsInLower "sses" cs || endsInLower "xes" cs || endsInLower "ches" cs ||
      endsInLower "shes" cs) = true ↔
      EndsInEs (lowerAll cs) := by
    simp [EndsInEs, esEndings, endsInLower_iff, or_assoc]
  have hs : (endsInLower "s" cs && !(endsInLower "ss" cs || endsInLower "us" cs || endsInLower "is" cs)) =
      true ↔
      EndsInPluralS (lowerAll cs) := by
    rw [Bool.and_eq_true, Bool.not_eq_true', ← Bool.not_eq_true]
    simp [EndsInPluralS, singularEndings, endsInLower_iff, and_assoc]
  rw [singularByEnding]
  simp only [hes, hs]

theorem dropLast_append (front : List Char) {n : Nat} (hlength : back.length = n) :
    dropLast n (front ++ back) = front := by
  rw [dropLast, List.length_append, hlength, Nat.add_sub_cancel, List.take_left]

theorem eq_of_suffix {ending ending' : List Char} (h : ending <:+ cs) (h' : ending' <:+ cs)
    (hlength : ending.length = ending'.length) : ending = ending' :=
  (List.suffix_of_suffix_length_le h h' (Nat.le_of_eq hlength)).eq_of_length hlength

theorem not_endsInPluralS_of_last (hletter : letter ≠ 's') (h : [letter] <:+ cs) : ¬ EndsInPluralS cs :=
  fun hplural => hletter (List.singleton_inj.mp (eq_of_suffix h hplural.1 rfl))

theorem endsInPluralS_of_es (h : ['e', 's'] <:+ cs) : EndsInPluralS cs := by
  refine ⟨List.IsSuffix.trans (by decide) h, fun ending hmem hending => ?_⟩
  have hother : ∀ ending ∈ singularEndings, ending.toList.length = 2 ∧ ending.toList ≠ ['e', 's'] := by decide
  exact (hother ending hmem).2 (eq_of_suffix hending h (hother ending hmem).1)

/-- What stands before an `es` that is lost is the end of no plural. -/
theorem EndsInEs.exists_before (h : EndsInEs cs) :
    ∃ before, before ++ ['e', 's'] <:+ cs ∧ ∀ low, before <:+ low → ¬ EndsInPluralS low := by
  obtain ⟨ending, hmem, hsuffix⟩ := h
  simp only [esEndings, List.mem_cons, List.not_mem_nil, or_false] at hmem
  obtain rfl | rfl | rfl | rfl := hmem
  · exact ⟨['s', 's'], hsuffix, fun low hlow hplural => hplural.2 "ss" (by decide) hlow⟩
  · exact ⟨['x'], hsuffix, fun low hlow => not_endsInPluralS_of_last (by decide : 'x' ≠ 's') hlow⟩
  · exact ⟨['c', 'h'], hsuffix, fun low hlow => not_endsInPluralS_of_last (by decide : 'h' ≠ 's')
      (List.IsSuffix.trans (by decide) hlow)⟩
  · exact ⟨['s', 'h'], hsuffix, fun low hlow => not_endsInPluralS_of_last (by decide : 'h' ≠ 's')
      (List.IsSuffix.trans (by decide) hlow)⟩

theorem isPluralLetter_es : ∀ letter ∈ ['e', 's'], IsPluralLetter letter := by
  simp [IsPluralLetter]

theorem isPluralLetter_s : ∀ letter ∈ ['s'], IsPluralLetter letter := by
  simp [IsPluralLetter]

theorem not_endsInPluralS_singularByEnding (cs : List Char) :
    ¬ EndsInPluralS (lowerAll (singularByEnding cs)) := by
  rw [singularByEnding_eq]
  split
  · next hes =>
    obtain ⟨before, hsuffix, hsingular⟩ := hes.exists_before
    obtain ⟨front, back, rfl, hlength, -, -, hbefore⟩ := exists_append_of_suffix isPluralLetter_es hsuffix
    rw [dropLast_append (n := 2) front hlength]
    exact hsingular _ hbefore
  · split
    · next hplural =>
      have hs : [] ++ ['s'] <:+ lowerAll cs := hplural.1
      obtain ⟨front, back, rfl, hlength, -, hback, -⟩ := exists_append_of_suffix isPluralLetter_s hs
      rw [dropLast_append (n := 1) front hlength]
      -- With another `s` in front the text would have ended in `ss`.
      intro hfront
      refine hplural.2 "ss" (by decide) ?_
      rw [lowerAll_append, hback]
      exact List.suffix_append_self_iff.mpr hfront.1
    · next hsingular => exact hsingular

theorem singularChars_cases (cs : List Char) :
    (∃ stem, cs = stem ++ "ies".toList ∧ singularChars cs = stem ++ ['y']) ∨
      singularChars cs = singularByEnding cs := by
  rw [singularChars]
  split
  · next c stem hstem => exact .inl ⟨c :: stem, beforeEnd?_eq_some.mp hstem, rfl⟩
  · exact .inr rfl

theorem not_endsInPluralS_singularChars (cs : List Char) : ¬ EndsInPluralS (lowerAll (singularChars cs)) := by
  obtain ⟨stem, -, heq⟩ | heq := singularChars_cases cs
  · have hlower : lowerAll (stem ++ ['y']) = lowerAll stem ++ ['y'] := lowerAll_append stem ['y']
    rw [heq, hlower]
    exact not_endsInPluralS_of_last (by decide : 'y' ≠ 's') (List.suffix_append _ _)
  · rw [heq]
    exact not_endsInPluralS_singularByEnding cs

/-- A text is its own singular exactly if it does not end as a plural. -/
theorem singularChars_eq_self_iff : singularChars cs = cs ↔ ¬ EndsInPluralS (lowerAll cs) := by
  refine ⟨fun h => h ▸ not_endsInPluralS_singularChars cs, fun h => ?_⟩
  obtain ⟨stem, rfl, -⟩ | heq := singularChars_cases cs
  · have hies : ['e', 's'] <:+ lowerAll (stem ++ "ies".toList) := by
      rw [lowerAll_append]
      exact List.suffix_append_of_suffix (by decide)
    exact absurd (endsInPluralS_of_es hies) h
  · have hes : ¬ EndsInEs (lowerAll cs) := by
      intro hes
      obtain ⟨before, hsuffix, -⟩ := hes.exists_before
      exact h (endsInPluralS_of_es ((List.suffix_append _ _).trans hsuffix))
    rw [heq, singularByEnding_eq, if_neg hes, if_neg h]

theorem singular_singular (s : String) : singular (singular s) = singular s := by
  rw [singular, singular, String.toList_ofList,
    singularChars_eq_self_iff.mpr (not_endsInPluralS_singularChars _)]

/-- The text without its last `n` bytes. There is none if it has fewer bytes, or if the cut falls
inside a character. -/
def withoutLastBytes? (n : Nat) (s : String) : Option String :=
  if h : n ≤ s.utf8ByteSize ∧ (String.Pos.Raw.mk (s.utf8ByteSize - n)).IsValid s then
    some (s.sliceTo (s.pos ⟨s.utf8ByteSize - n⟩ h.2)).copy
  else none

/-- A text in lower case, which stands behind `before`. At the end of a word the small form of a
capital sigma is another one; `endsWord` tells where that is. -/
def lowerInContext (endsWord : (before after : List Char) → Bool) (before : List Char) : List Char → List Char
  | [] => []
  | c :: rest =>
    (if c = 'Σ' ∧ endsWord before rest then ['ς'] else lowerOf c) ++
      lowerInContext endsWord (before ++ [c]) rest

def cutByEnding? (low : List Char) (s : String) : Option String :=
  if EndsInEs low then withoutLastBytes? 2 s
  else if EndsInPluralS low then withoutLastBytes? 1 s
  else some s

/-- The singular of a noun that is cut in its bytes. Its ending is looked at in a copy in lower
case, `ies` alone in the noun as it stands. -/
def cutSingular? (endsWord : (before after : List Char) → Bool) (s : String) : Option String :=
  let low := lowerInContext endsWord [] s.toList
  match dropEnd? "ies" s with
  | some stem => if stem = "" then cutByEnding? low s else some (stem ++ "y")
  | none => cutByEnding? low s

theorem withoutLastBytes?_append (front back : String) :
    withoutLastBytes? back.utf8ByteSize (front ++ back) = some front := by
  have hoffset : (front ++ back).utf8ByteSize - back.utf8ByteSize = front.utf8ByteSize := by
    rw [String.utf8ByteSize_append, Nat.add_sub_cancel]
  have hle : back.utf8ByteSize ≤ (front ++ back).utf8ByteSize := by
    rw [String.utf8ByteSize_append]
    exact Nat.le_add_left _ _
  have hvalid : (String.Pos.Raw.mk ((front ++ back).utf8ByteSize - back.utf8ByteSize)).IsValid
      (front ++ back) := by
    rw [hoffset]
    exact String.Pos.Raw.isValid_iff_exists_append.mpr ⟨front, back, rfl, rfl⟩
  rw [withoutLastBytes?, dif_pos ⟨hle, hvalid⟩]
  have hsplits : ((front ++ back).pos _ hvalid).Splits front back := by
    refine ⟨rfl, ?_⟩
    rw [String.offset_pos, hoffset]
    rfl
  rw [hsplits.copy_sliceTo_eq]

/-- A cut inside a character leaves nothing, and neither does one before the start. -/
example : withoutLastBytes? 1 "é" = none ∧ withoutLastBytes? 2 "s" = none := by
  decide +kernel

/-- Letters that a text ends in when it is in lower case are cut off in as many bytes. -/
theorem withoutLastBytes?_eq {s : String} (htail : ∀ letter ∈ tail, IsPluralLetter letter)
    (h : stem ++ tail <:+ lowerAll s.toList) :
    withoutLastBytes? tail.length s = some (String.ofList (dropLast tail.length s.toList)) := by
  obtain ⟨front, back, hchars, hlength, hbytes, -, -⟩ := exists_append_of_suffix htail h
  have hs : s = String.ofList front ++ String.ofList back := by
    rw [← String.ofList_append, ← hchars, String.ofList_toList]
  rw [hchars, dropLast_append front hlength, hs, ← hbytes, ← utf8ByteSize_ofList, withoutLastBytes?_append]

def plainSigma (c : Char) : Char := if c = 'ς' then 'σ' else c

theorem map_plainSigma_lowerInContext (endsWord : (before after : List Char) → Bool) (before cs : List Char) :
    (lowerInContext endsWord before cs).map plainSigma = (lowerAll cs).map plainSigma := by
  induction cs generalizing before with
  | nil => rfl
  | cons c rest ih =>
    rw [lowerInContext, lowerAll, List.flatMap_cons, List.map_append, List.map_append, ih, lowerAll]
    congr 1
    split
    · next hfinal =>
      rw [hfinal.1]
      decide +kernel
    · rfl

theorem map_plainSigma_of_not_mem (h : 'ς' ∉ cs) : cs.map plainSigma = cs := by
  refine (List.map_congr_left (fun c hc => if_neg ?_)).trans (List.map_id' cs)
  rintro rfl
  exact h hc

theorem suffix_map_plainSigma_iff {ending : List Char} (h : 'σ' ∉ ending ∧ 'ς' ∉ ending) :
    ending <:+ cs.map plainSigma ↔ ending <:+ cs := by
  constructor
  · intro hsuffix
    obtain ⟨part, hpart, rfl⟩ := List.suffix_map_iff.mp hsuffix
    have hfinal : 'ς' ∉ part := fun hmem => h.1 (List.mem_map_of_mem (f := plainSigma) hmem)
    rwa [map_plainSigma_of_not_mem hfinal]
  · intro hsuffix
    exact map_plainSigma_of_not_mem h.2 ▸ hsuffix.map plainSigma

/-- For an ending without a sigma it makes no difference how sigmas are put in lower case. -/
theorem suffix_lowerInContext_iff (endsWord : (before after : List Char) → Bool) {ending : List Char}
    (h : 'σ' ∉ ending ∧ 'ς' ∉ ending) :
    ending <:+ lowerInContext endsWord [] cs ↔ ending <:+ lowerAll cs := by
  rw [← suffix_map_plainSigma_iff h, map_plainSigma_lowerInContext, suffix_map_plainSigma_iff h]

theorem endsInEs_lowerInContext_iff (endsWord : (before after : List Char) → Bool) (cs : List Char) :
    EndsInEs (lowerInContext endsWord [] cs) ↔ EndsInEs (lowerAll cs) := by
  have hplain : ∀ ending ∈ esEndings, 'σ' ∉ ending.toList ∧ 'ς' ∉ ending.toList := by decide
  exact exists_congr (fun ending => and_congr_right (fun hmem =>
    suffix_lowerInContext_iff endsWord (hplain ending hmem)))

theorem endsInPluralS_lowerInContext_iff (endsWord : (before after : List Char) → Bool) (cs : List Char) :
    EndsInPluralS (lowerInContext endsWord [] cs) ↔ EndsInPluralS (lowerAll cs) := by
  have hplain : ∀ ending ∈ singularEndings, 'σ' ∉ ending.toList ∧ 'ς' ∉ ending.toList := by decide
  refine and_congr (suffix_lowerInContext_iff endsWord (by decide)) (forall₂_congr (fun ending hmem => ?_))
  exact not_congr (suffix_lowerInContext_iff endsWord (hplain ending hmem))

theorem cutByEnding?_eq (endsWord : (before after : List Char) → Bool) (s : String) :
    cutByEnding? (lowerInContext endsWord [] s.toList) s =
      some (String.ofList (singularByEnding s.toList)) := by
  simp only [cutByEnding?, singularByEnding_eq, endsInEs_lowerInContext_iff, endsInPluralS_lowerInContext_iff]
  split
  · next hes =>
    obtain ⟨before, hsuffix, -⟩ := hes.exists_before
    exact withoutLastBytes?_eq isPluralLetter_es hsuffix
  · split
    · next hplural =>
      have hs : [] ++ ['s'] <:+ lowerAll s.toList := hplural.1
      exact withoutLastBytes?_eq isPluralLetter_s hs
    · rw [String.ofList_toList]

/-- Every cut falls between two characters, however sigmas are put in lower case, and leaves the singular. -/
theorem cutSingular?_eq (endsWord : (before after : List Char) → Bool) (s : String) :
    cutSingular? endsWord s = some (singular s) := by
  rw [cutSingular?, singular, singularChars, dropEnd?]
  cases hies : beforeEnd? "ies".toList s.toList with
  | none => exact cutByEnding?_eq endsWord s
  | some stem =>
    cases stem with
    | nil => exact cutByEnding?_eq endsWord s
    | cons c stem =>
      have hne : String.ofList (c :: stem) ≠ "" := by simp
      simp only [Option.map_some, if_neg hne]
      rw [String.ofList_append]

/-- In lower case a noun may be longer than it was. -/
example :
    singular "ȺBOXES" = "ȺBOX" ∧ "ȺBOXES".utf8ByteSize = 7 ∧ byteLength (lowerAll "ȺBOXES".toList) = 8 := by
  decide +kernel

end ProviderSdk.Text
