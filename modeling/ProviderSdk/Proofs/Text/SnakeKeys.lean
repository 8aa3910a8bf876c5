import ProviderSdk.Proofs.Text.Pieces
import ProviderSdk.Text.Casing

/-!
# Keys in snake case

A key in snake case has words of small letters and digits. In its canonical name every word but the
first begins with a capital, so that the key comes back from it.
-/

namespace ProviderSdk.Text

def isPlain (c : Char) : Bool := c.isLower || c.isDigit

section

variable {c : Char}

theorem isPlain_of_isLower (h : c.isLower = true) : isPlain c = true := by simp [isPlain, h]

theorem toNat_lt_of_isPlain (h : isPlain c = true) : c.toNat < 128 := by
  have hlast (last : Char) (hlast : last.toNat < 128) (hle : c ≤ last) : c.toNat < 128 :=
    Nat.lt_of_le_of_lt (UInt32.le_iff_toNat_le.mp hle) hlast
  obtain hlower | hdigit := Bool.or_eq_true_iff.mp h
  · exact hlast 'z' (by decide) (of_decide_eq_true (Bool.and_eq_true_iff.mp hlower).2)
  · exact hlast '9' (by decide) (of_decide_eq_true (Bool.and_eq_true_iff.mp hdigit).2)

/-- What the other cases of a small letter or digit are: it is none of the capitals and no joint, it
comes back from its capital, which is no joint either, and that of a letter is a capital. -/
structure IsPlainCase (c : Char) : Prop where
  notUppercase : isUppercase c = false
  notJoint : isJoint c = false
  upper : upperOf c = [c.toUpper]
  lower : lowerOf c.toUpper = [c]
  upperNotJoint : isJoint c.toUpper = false
  upperIsUppercase : c.isLower = true → isUppercase c.toUpper = true

instance (c : Char) : Decidable (IsPlainCase c) :=
  decidable_of_iff (isUppercase c = false ∧ isJoint c = false ∧ upperOf c = [c.toUpper] ∧
    lowerOf c.toUpper = [c] ∧
      isJoint c.toUpper = false ∧ (c.isLower = true → isUppercase c.toUpper = true))
    ⟨fun ⟨a, b, d, e, f, g⟩ => ⟨a, b, d, e, f, g⟩, fun ⟨a, b, d, e, f, g⟩ => ⟨a, b, d, e, f, g⟩⟩

theorem isPlainCase (h : isPlain c = true) : IsPlainCase c := by
  have hascii : ∀ n < 128, isPlain (Char.ofNat n) = true → IsPlainCase (Char.ofNat n) := by decide +kernel
  have hc := hascii c.toNat (toNat_lt_of_isPlain h)
  rw [Char.ofNat_toNat] at hc
  exact hc h

end

def IsWord (w : List Char) : Prop := w ≠ [] ∧ w.all isPlain = true

def IsLetterWord (w : List Char) : Prop := IsWord w ∧ w.head?.any Char.isLower = true

instance (w : List Char) : Decidable (IsWord w) := inferInstanceAs (Decidable (_ ∧ _))

instance (w : List Char) : Decidable (IsLetterWord w) := inferInstanceAs (Decidable (_ ∧ _))

theorem IsWord.isPlain {w : List Char} (h : IsWord w) : ∀ c ∈ w, isPlain c = true := List.all_eq_true.mp h.2

section

variable {first w : List Char} {rest : List (List Char)}

theorem IsLetterWord.exists_capitalized (h : IsLetterWord w) :
    ∃ c cs, w = c :: cs ∧ c.isLower = true ∧ (∀ d ∈ cs, isPlain d = true) ∧
      capitalized w = c.toUpper :: cs := by
  obtain ⟨hword, hletter⟩ := h
  have hplain := hword.isPlain
  cases w with
  | nil => exact absurd rfl hword.1
  | cons c cs =>
    refine ⟨c, cs, rfl, hletter, fun d hd => hplain d (List.mem_cons_of_mem c hd), ?_⟩
    rw [capitalized_cons, (isPlainCase (hplain c List.mem_cons_self)).upper, List.singleton_append]

theorem joinWith_cons (first : List Char) (rest : List (List Char)) :
    joinWith ['_'] (first :: rest) = first ++ rest.flatMap ('_' :: ·) := by
  induction rest generalizing first with
  | nil => simp [joinWith]
  | cons second rest ih => simp [joinWith, ih]

theorem flatMap_underscored_of_isPlain (h : ∀ c ∈ w, isPlain c = true) : w.flatMap underscored = w := by
  induction w with
  | nil => rfl
  | cons c rest ih =>
    obtain ⟨hc, hrest⟩ := List.forall_mem_cons.mp h
    rw [List.flatMap_cons, ih hrest, underscored, if_neg (by simp [(isPlainCase hc).notUppercase]),
      List.singleton_append]

/-- Capitals turn into underscores and small letters again. -/
theorem flatMap_underscored_capitalized (h : ∀ w ∈ rest, IsLetterWord w) :
    (rest.flatMap capitalized).flatMap underscored = rest.flatMap ('_' :: ·) := by
  induction rest with
  | nil => rfl
  | cons w rest ih =>
    obtain ⟨hw, hrest⟩ := List.forall_mem_cons.mp h
    obtain ⟨c, cs, rfl, hc, hcs, hcapitalized⟩ := hw.exists_capitalized
    have hcase := isPlainCase (isPlain_of_isLower hc)
    have hfirst : underscored c.toUpper = ['_', c] := by
      rw [underscored, if_pos (hcase.upperIsUppercase hc), hcase.lower]
    rw [List.flatMap_cons, List.flatMap_append, hcapitalized, List.flatMap_cons, hfirst,
      flatMap_underscored_of_isPlain hcs, ih hrest, List.flatMap_cons]
    rfl

/-- Words behind underscores are found again. -/
theorem splitAt_append_flatMap {before : List Char} (hbefore : '_' ∉ before) (h : ∀ w ∈ rest, '_' ∉ w) :
    splitAt '_' (before ++ rest.flatMap ('_' :: ·)) = before :: rest := by
  rw [← joinWith_cons]
  exact splitAt_eq_iff.mpr ⟨List.cons_ne_nil _ _, List.forall_mem_cons.mpr ⟨hbefore, h⟩, rfl⟩

/-- Words that begin with letters are found again behind their capitals. -/
theorem flatMap_capitalized_inj {others : List (List Char)} (h : ∀ w ∈ rest, IsLetterWord w)
    (h' : ∀ w ∈ others, IsLetterWord w) :
    rest.flatMap capitalized = others.flatMap capitalized ↔ rest = others := by
  have hjoint {ws : List (List Char)} (hws : ∀ w ∈ ws, IsLetterWord w) : ∀ w ∈ ws, '_' ∉ w :=
    fun w hw hmem => absurd ((hws w hw).1.isPlain _ hmem) (by decide)
  refine ⟨fun heq => ?_, fun heq => by rw [heq]⟩
  have hsnake := congrArg (fun cs => splitAt '_' (cs.flatMap underscored)) heq
  rw [flatMap_underscored_capitalized h, flatMap_underscored_capitalized h',
    ← List.nil_append (rest.flatMap _), ← List.nil_append (others.flatMap _),
    splitAt_append_flatMap List.not_mem_nil (hjoint h), splitAt_append_flatMap List.not_mem_nil (hjoint h')]
      at hsnake
  exact (List.cons.inj hsnake).2

end

def keyWords (key : String) : List (List Char) := splitAt '_' key.toList

/-- A key has words of small letters and digits, and all but the first begin with a letter. -/
def InSnakeCase (key : String) : Prop :=
  (∀ w ∈ keyWords key, IsWord w) ∧ ∀ w ∈ (keyWords key).tail, IsLetterWord w

/-- No word between the first and the last is a single letter. -/
def LongInside (key : String) : Prop := ∀ w ∈ (keyWords key).tail.dropLast, 2 ≤ w.length

instance (key : String) : Decidable (InSnakeCase key) := inferInstanceAs (Decidable (_ ∧ _))

instance (key : String) : Decidable (LongInside key) := inferInstanceAs (Decidable (∀ _ ∈ _, _))

namespace InSnakeCase

variable {key : String}

theorem mem (h : InSnakeCase key) {c : Char} (hc : c ∈ key.toList) : c = '_' ∨ isPlain c = true := by
  refine Decidable.or_iff_not_imp_left.mpr (fun hne => ?_)
  have hflat : c ∈ (keyWords key).flatten := by
    rw [keyWords, splitAt, flatten_splitWhere]
    exact List.mem_filter.mpr ⟨hc, by simpa using hne⟩
  obtain ⟨w, hw, hmem⟩ := List.mem_flatten.mp hflat
  exact (h.1 w hw).isPlain c hmem

theorem splitWhere_isJoint (h : InSnakeCase key) : splitWhere isJoint key.toList = keyWords key := by
  refine splitWhere_congr (fun c hc => ?_)
  obtain rfl | hplain := h.mem hc
  · rfl
  · have hne : c ≠ '_' := fun heq => absurd hplain (heq ▸ by decide)
    rw [(isPlainCase hplain).notJoint, eq_comm, beq_eq_false_iff_ne]
    exact hne

theorem exists_words (h : InSnakeCase key) :
    ∃ first rest, keyWords key = first :: rest ∧ IsWord first ∧ (∀ w ∈ rest, IsLetterWord w) ∧
      key.toList = joinWith ['_'] (first :: rest) ∧
        (canonicalName key).toList = first ++ rest.flatMap capitalized := by
  have hcolon : withoutColon key.toList = key.toList := by
    have hlast : key.toList.getLast? ≠ [':'].getLast? :=
      fun hlast => absurd (h.mem (List.mem_of_getLast? hlast)) (by decide)
    rw [withoutColon, beforeEnd?_eq_none hlast (List.cons_ne_nil _ _), Option.getD_none]
  have hjoints := h.splitWhere_isJoint
  obtain ⟨first, rest, hwords⟩ := List.exists_cons_of_ne_nil (splitWhere_ne_nil (· == '_') key.toList)
  replace hwords : keyWords key = first :: rest := hwords
  obtain ⟨hall, hletters⟩ := h
  rw [hwords] at hall hletters
  refine ⟨first, rest, hwords, hall first List.mem_cons_self, hletters, ?_, ?_⟩
  · rw [← hwords, keyWords, joinWith_splitAt]
  · rw [canonicalName, String.toList_ofList, hcolon, camelChars, hjoints, hwords]

theorem keyOfCanonicalName_canonicalName (h : InSnakeCase key) :
    keyOfCanonicalName (canonicalName key) = key := by
  obtain ⟨first, rest, -, hfirst, hrest, hkey, hname⟩ := h.exists_words
  apply String.toList_injective
  rw [keyOfCanonicalName, String.toList_ofList, hname, List.flatMap_append,
    flatMap_underscored_of_isPlain hfirst.isPlain, flatMap_underscored_capitalized hrest, hkey, joinWith_cons]

/-- A canonical name has small letters, digits and capitals of small letters. -/
theorem forall_mem_canonicalName {P : Char → Prop} (h : InSnakeCase key)
    (hplain : ∀ c, isPlain c = true → P c) (hupper : ∀ c : Char, c.isLower = true → P c.toUpper) :
    ∀ c ∈ (canonicalName key).toList, P c := by
  obtain ⟨first, rest, -, hfirst, hrest, -, hname⟩ := h.exists_words
  intro c hc
  rw [hname] at hc
  rcases List.mem_append.mp hc with hc | hc
  · exact hplain c (hfirst.isPlain c hc)
  · obtain ⟨w, hw, hc⟩ := List.mem_flatMap.mp hc
    obtain ⟨first, cs, -, hlower, hcs, hcapitalized⟩ := (hrest w hw).exists_capitalized
    rw [hcapitalized] at hc
    rcases List.mem_cons.mp hc with rfl | hc
    · exact hupper first hlower
    · exact hplain c (hcs c hc)

theorem isJoint_canonicalName (h : InSnakeCase key) : ∀ c ∈ (canonicalName key).toList, isJoint c = false :=
  h.forall_mem_canonicalName (fun _ hc => (isPlainCase hc).notJoint)
    (fun _ hc => (isPlainCase (isPlain_of_isLower hc)).upperNotJoint)

theorem not_mem_canonicalName (h : InSnakeCase key) : '_' ∉ (canonicalName key).toList :=
  fun hmem => absurd (h.isJoint_canonicalName '_' hmem) (by decide)

theorem camelCase_canonicalName (h : InSnakeCase key) :
    camelCase (canonicalName key) = canonicalName key := by
  apply String.toList_injective
  rw [camelCase, String.toList_ofList, camelChars, splitWhere_of_forall h.isJoint_canonicalName]
  simp

theorem pascalCase_canonicalName (h : InSnakeCase key) :
    pascalCase (canonicalName key) = upperFirst (canonicalName key) := by
  rw [pascalCase, pascalChars, splitWhere_of_forall h.isJoint_canonicalName, upperFirst]
  simp

theorem exists_upperFirst_canonicalName (h : InSnakeCase key) :
    ∃ c cs, isPlain c = true ∧ (canonicalName key).toList = c :: cs ∧
      (upperFirst (canonicalName key)).toList = c.toUpper :: cs := by
  obtain ⟨first, rest, -, hfirst, -, -, hname⟩ := h.exists_words
  cases first with
  | nil => exact absurd rfl hfirst.1
  | cons c cs =>
    have hc := hfirst.isPlain c List.mem_cons_self
    rw [List.cons_append] at hname
    refine ⟨c, _, hc, hname, ?_⟩
    rw [upperFirst, String.toList_ofList, hname, capitalized_cons, (isPlainCase hc).upper,
      List.singleton_append]

/-- The first letter turns into a capital and back. -/
theorem lowerFirst_upperFirst_canonicalName (h : InSnakeCase key) :
    lowerFirst (upperFirst (canonicalName key)) = canonicalName key := by
  obtain ⟨c, cs, hc, hname, hupper⟩ := h.exists_upperFirst_canonicalName
  apply String.toList_injective
  rw [lowerFirst, String.toList_ofList, hupper, uncapitalized_cons, (isPlainCase hc).lower, hname,
    List.singleton_append]

theorem not_mem_upperFirst_canonicalName (h : InSnakeCase key) :
    '_' ∉ (upperFirst (canonicalName key)).toList := by
  obtain ⟨c, cs, hc, hname, hupper⟩ := h.exists_upperFirst_canonicalName
  rw [hupper, List.mem_cons, not_or]
  refine ⟨fun heq => ?_, fun hmem => h.not_mem_canonicalName (hname ▸ List.mem_cons_of_mem c hmem)⟩
  have hjoint := (isPlainCase hc).upperNotJoint
  rw [← heq] at hjoint
  exact absurd hjoint (by decide)

theorem isLetterWord_value : IsLetterWord "value".toList := by
  decide

theorem append_value (h : InSnakeCase key) :
    InSnakeCase (key ++ "_value") ∧ canonicalName (key ++ "_value") = canonicalName key ++ "Value" := by
  obtain ⟨first, rest, hwords, hfirst, hrest, -, hname⟩ := h.exists_words
  have hwords' : keyWords (key ++ "_value") = first :: (rest ++ ["value".toList]) := by
    have hsplit := splitAt_append '_' key.toList "value".toList
    rw [keyWords, String.toList_append, ← List.cons_append, ← hwords]
    exact hsplit
  have hvalue : InSnakeCase (key ++ "_value") := by
    rw [InSnakeCase, hwords']
    refine ⟨?_, ?_⟩
    · simp only [List.mem_cons, List.mem_append, List.not_mem_nil, or_false]
      rintro w (rfl | hw | rfl)
      · exact hfirst
      · exact (hrest w hw).1
      · exact isLetterWord_value.1
    · simp only [List.tail_cons, List.mem_append, List.mem_cons, List.not_mem_nil, or_false]
      rintro w (hw | rfl)
      · exact hrest w hw
      · exact isLetterWord_value
  refine ⟨hvalue, ?_⟩
  obtain ⟨first', rest', heq, -, -, -, hname'⟩ := hvalue.exists_words
  obtain ⟨rfl, rfl⟩ := List.cons.inj (hwords'.symm.trans heq)
  apply String.toList_injective
  rw [hname', String.toList_append, hname, List.flatMap_append, List.append_assoc]
  rfl

theorem pascalCase_append_value (h : InSnakeCase key) :
    pascalCase (canonicalName (key ++ "_value")) = pascalCase (canonicalName key) ++ "Value" := by
  obtain ⟨hvalue, hname⟩ := h.append_value
  obtain ⟨c, cs, hc, hchars, hupper⟩ := h.exists_upperFirst_canonicalName
  rw [hvalue.pascalCase_canonicalName, h.pascalCase_canonicalName, hname]
  apply String.toList_injective
  rw [upperFirst, String.toList_ofList, String.toList_append, hchars, List.cons_append, capitalized_cons,
    (isPlainCase hc).upper, String.toList_append, hupper, List.singleton_append, List.cons_append]

end InSnakeCase

theorem not_inSnakeCase_append (key : String) : ¬ InSnakeCase (key ++ "_") := by
  rintro ⟨hwords, -⟩
  have hsplit : keyWords (key ++ "_") = splitAt '_' key.toList ++ [[]] := by
    rw [keyWords, String.toList_append]
    exact splitAt_append '_' key.toList []
  exact (hwords [] (by simp [hsplit])).1 rfl

end ProviderSdk.Text
