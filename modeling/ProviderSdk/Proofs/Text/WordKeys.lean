import Mathlib.Data.List.Chain
import ProviderSdk.Convention
import ProviderSdk.Proofs.Text.Acronyms
import ProviderSdk.Proofs.Text.CanonicalNames

/-!
# Keys and the words of their names

A key comes back from the words of its canonical name if every capital of the name begins a word.
The capital of a single letter does not if the next word makes an acronym with it: another single
letter, or a letter and a digit.
-/

namespace ProviderSdk.Text

variable {before c : Char} {cs w : List Char} {rest words : List (List Char)}

def CapitalsBeginWords : List Char → Prop
  | [] => True
  | [_] => True
  | before :: c :: rest =>
    (isUppercase c = true → beginsWord before c rest.head? = true) ∧ CapitalsBeginWords (c :: rest)

theorem isUppercase_of_beginsWord {next? : Option Char} (h : beginsWord before c next? = true) :
    isUppercase c = true := by
  by_contra hc
  rw [Bool.not_eq_true] at hc
  simp [beginsWord_of_not_capital hc] at h

theorem joint_not_mem_lowerOf (hc : isUppercase c = true) : '_' ∉ lowerOf c := by
  rcases Nat.lt_or_ge c.toNat 128 with hascii | hbeyond
  · have hne := lowerOf_of_ascii (P := fun c => isUppercase c = true) (Q := (· ≠ '_'))
      (by decide +kernel) hascii hc
    exact fun hmem => hne '_' hmem rfl
  · exact fun hmem => absurd (isSmall_lowerOf hbeyond '_' hmem) (by decide)

theorem joinWith_modifyHead (sep current : List Char) (hwords : words ≠ []) :
    joinWith sep (words.modifyHead (current ++ ·)) = current ++ joinWith sep words := by
  obtain ⟨word, words, rfl⟩ := List.exists_cons_of_ne_nil hwords
  cases words <;> simp [joinWith]

theorem joinWith_wordsByCapitals (sep : List Char) (before c : Char) (rest : List Char) :
    joinWith sep (wordsByCapitals (before :: c :: rest)) =
      uncapital before ++ ((if beginsWord before c rest.head? then sep else []) ++
        joinWith sep (wordsByCapitals (c :: rest))) := by
  have hwords := wordsByCapitals_ne_nil (c :: rest)
  rw [wordsByCapitals]
  split
  · rw [joinWith_cons_of_ne_nil _ _ hwords, List.append_assoc]
  · rw [joinWith_modifyHead _ _ hwords, List.nil_append]

theorem exists_joinWith_wordsByCapitals (sep : List Char) (c : Char) (rest : List Char) :
    ∃ more, joinWith sep (wordsByCapitals (c :: rest)) = uncapital c ++ more := by
  cases rest with
  | nil => exact ⟨[], by simp [wordsByCapitals, joinWith]⟩
  | cons d rest => exact ⟨_, joinWith_wordsByCapitals sep c d rest⟩

/-- A name in snake case has an underscore before every capital only if every capital begins a word. -/
theorem joinWith_wordsByCapitals_iff (before : Char) (cs : List Char) :
    joinWith ['_'] (wordsByCapitals (before :: cs)) = uncapital before ++ cs.flatMap underscored ↔
      CapitalsBeginWords (before :: cs) := by
  induction cs generalizing before with
  | nil => simp [wordsByCapitals, joinWith, CapitalsBeginWords]
  | cons c rest ih =>
    rw [joinWith_wordsByCapitals, List.append_cancel_left_eq, CapitalsBeginWords, ← ih c, List.flatMap_cons]
    by_cases hbegins : beginsWord before c rest.head? = true
    · have hc := isUppercase_of_beginsWord hbegins
      simp [hbegins, hc, underscored, uncapital]
    · by_cases hc : isUppercase c = true
      · obtain ⟨more, hmore⟩ := exists_joinWith_wordsByCapitals ['_'] c rest
        obtain ⟨small, smalls, hlower⟩ := List.exists_cons_of_ne_nil (keepsMarks_lowerOf.ne_nil c)
        have hne : small ≠ '_' := fun heq => joint_not_mem_lowerOf hc (by simp [hlower, heq])
        simp [hbegins, hc, hmore, underscored, uncapital, hlower, hne]
      · simp [hbegins, hc, underscored, uncapital]

/-- The capitals of two words of a key run together: a single letter, and another one or a letter
and a digit. -/
def RunsInto (w next : List Char) : Prop :=
  w.length = 1 ∧ (next.length = 1 ∨ next[1]?.any Char.isDigit = true)

instance (w next : List Char) : Decidable (RunsInto w next) := inferInstanceAs (Decidable (_ ∧ _))

/-- No two words behind the first word of a key run together. -/
def KeepsWordsApart (key : String) : Prop := (keyWords key).tail.IsChain (fun w next => ¬ RunsInto w next)

instance (key : String) : Decidable (KeepsWordsApart key) := inferInstanceAs (Decidable (List.IsChain _ _))

theorem capitalsBeginWords_cons_of_small (hc : isUppercase c = false) :
    CapitalsBeginWords (c :: cs) ↔ CapitalsBeginWords cs := by
  cases cs with
  | nil => simp [CapitalsBeginWords]
  | cons d rest =>
    rw [CapitalsBeginWords, and_iff_right_iff_imp]
    exact fun _ hd => beginsWord_behind_small hd hc _

theorem capitalsBeginWords_append_of_isPlain (hw : ∀ c ∈ w, isPlain c = true) :
    CapitalsBeginWords (w ++ cs) ↔ CapitalsBeginWords cs := by
  induction w with
  | nil => rfl
  | cons c w ih =>
    obtain ⟨hc, hw⟩ := List.forall_mem_cons.mp hw
    rw [List.cons_append, capitalsBeginWords_cons_of_small (isPlainCase hc).notUppercase, ih hw]

/-- The capital of a word behind that of a single letter begins a word unless the two run together. -/
theorem beginsWord_capitalized_iff {d : Char} {ds : List Char} (hc : c.isLower = true) (hd : d.isLower = true)
    (hds : ∀ e ∈ ds, isPlain e = true) (h : ∀ w ∈ rest, IsLetterWord w) :
    beginsWord c.toUpper d.toUpper (ds ++ rest.flatMap capitalized).head? = true ↔
      ¬ RunsInto [c] (d :: ds) := by
  have hupper {c : Char} (hc : c.isLower = true) : isUppercase c.toUpper = true :=
    (isPlainCase (isPlain_of_isLower hc)).upperIsUppercase hc
  rw [beginsWord_behind_capital (hupper hd) (hupper hc)]
  cases ds with
  | nil =>
    cases rest with
    | nil => simp [RunsInto]
    | cons third rest =>
      obtain ⟨e, es, rfl, he, -, hcapitalized⟩ := (h third List.mem_cons_self).exists_capitalized
      simp [RunsInto, hcapitalized, hupper he]
  | cons e es => simp [RunsInto, (isPlainCase (hds e List.mem_cons_self)).notUppercase]

/-- Only the capital of a single letter can be taken for that of an acronym. -/
theorem capitalsBeginWords_capitalized_iff (h : ∀ w ∈ rest, IsLetterWord w) :
    CapitalsBeginWords (rest.flatMap capitalized) ↔ rest.IsChain (fun w next => ¬ RunsInto w next) := by
  induction rest with
  | nil => simp [CapitalsBeginWords]
  | cons w rest ih =>
    obtain ⟨hw, hrest⟩ := List.forall_mem_cons.mp h
    obtain ⟨c, cs, rfl, hc, hcs, hcapitalized⟩ := hw.exists_capitalized
    rw [List.flatMap_cons, hcapitalized, List.isChain_cons, ← ih hrest]
    cases cs with
    | nil =>
      cases rest with
      | nil => simp [CapitalsBeginWords]
      | cons next rest =>
        obtain ⟨hnext, hlater⟩ := List.forall_mem_cons.mp hrest
        obtain ⟨d, ds, rfl, hd, hds, hcapitalized⟩ := hnext.exists_capitalized
        have hupper := (isPlainCase (isPlain_of_isLower hd)).upperIsUppercase hd
        rw [List.flatMap_cons, hcapitalized, List.singleton_append, List.cons_append, CapitalsBeginWords,
          beginsWord_capitalized_iff hc hd hds hlater]
        simp [hupper]
    | cons d ds =>
      have hlong : ∀ next, ¬ RunsInto (c :: d :: ds) next := by simp [RunsInto]
      have hsmall := (isPlainCase (hcs d List.mem_cons_self)).notUppercase
      rw [List.cons_append, List.cons_append, CapitalsBeginWords, ← List.cons_append,
        capitalsBeginWords_append_of_isPlain hcs]
      simp [hlong, hsmall]

namespace InSnakeCase

variable {key : String}

/-- A key comes back from the words of its canonical name if and only if none of them run together. -/
theorem snakeWords_canonicalName_iff (h : InSnakeCase key) :
    snakeWords (canonicalName key) = key ↔ KeepsWordsApart key := by
  have hsingle : HasSingleLowers (canonicalName key).toList :=
    hasSingleLowers_of_ascii (fun c hc => toNat_lt_of_isAlphanum (h.isAlphanum_canonicalName c hc))
  obtain ⟨first, rest, hwords, hfirst, hrest, hkey, hname⟩ := h.exists_words
  obtain ⟨c, cs, rfl⟩ := List.exists_cons_of_ne_nil hfirst.1
  obtain ⟨hc, hcs⟩ := List.forall_mem_cons.mp hfirst.isPlain
  have hsmall := (isPlainCase hc).notUppercase
  -- The key has an underscore before every capital of the name.
  have hunderscored : key.toList = uncapital c ++ (cs ++ rest.flatMap capitalized).flatMap underscored := by
    rw [hkey, joinWith_cons, List.flatMap_append, flatMap_underscored_of_isPlain hcs,
      flatMap_underscored_capitalized hrest, uncapital, hsmall]
    rfl
  rw [← String.toList_inj, snakeWords, String.toList_ofList, wordsOfIdentifier_eq hsingle,
    hname, hunderscored, List.cons_append, joinWith_wordsByCapitals_iff,
    capitalsBeginWords_cons_of_small hsmall, capitalsBeginWords_append_of_isPlain hcs,
    capitalsBeginWords_capitalized_iff hrest, KeepsWordsApart, hwords, List.tail_cons]

end InSnakeCase

theorem LongInside.keepsWordsApart {key : String} (h : LongInside key) : KeepsWordsApart key := by
  unfold LongInside at h
  unfold KeepsWordsApart
  generalize (keyWords key).tail = words at h
  induction words with
  | nil => exact .nil
  | cons w words ih =>
    cases words with
    | nil => exact .singleton w
    | cons next words =>
      obtain ⟨hw, hwords⟩ := List.forall_mem_cons.mp h
      exact .cons_cons (fun hrun => absurd hrun.1 (Nat.ne_of_gt hw)) (ih hwords)

/-- For keys whose words begin with letters, the key is the snake case of its canonical name if and
only if no single letter behind the first word is followed by another one, or by a letter and a
digit. Then it is the name of the field in Python, too, unless it is reserved there. -/
theorem snakeWords_canonicalName_eq_key_iff {key : String} (h : IsLetterKey key) :
    (snakeWords (canonicalName key) = key ↔ KeepsWordsApart key) ∧
    (Convention.python.fieldName (canonicalName key) = key ↔
      KeepsWordsApart key ∧ Convention.python.isReserved key = false) := by
  have hkey := h.inSnakeCase.snakeWords_canonicalName_iff
  refine ⟨hkey, ?_⟩
  have hfield : Convention.python.fieldName (canonicalName key) =
      Convention.python.safe (snakeWords (canonicalName key)) := rfl
  rw [hfield, Convention.safe]
  split
  · next hreserved =>
    have hescape : Convention.python.escape (snakeWords (canonicalName key)) =
        snakeWords (canonicalName key) ++ "_" := rfl
    constructor
    · intro heq
      rw [hescape] at heq
      exact absurd (heq ▸ h.inSnakeCase) (not_inSnakeCase_append _)
    · rintro ⟨hapart, hfree⟩
      rw [hkey.mpr hapart, hfree] at hreserved
      cases hreserved
  · next hfree =>
    rw [hkey, iff_self_and]
    intro hapart
    rw [hkey.mpr hapart] at hfree
    simpa using hfree

theorem ipv6Key_eq_snakeWords :
    IsLetterKey "ipv6_cidr_a_block" ∧ snakeWords (canonicalName "ipv6_cidr_a_block") = "ipv6_cidr_a_block" ∧
    IsLetterKey "cidr_a_b4_block" ∧ snakeWords (canonicalName "cidr_a_b4_block") ≠ "cidr_a_b4_block" ∧
    Convention.python.fieldName (canonicalName "ipv6_cidr_a_block") = "ipv6_cidr_a_block" := by
  have hblock : IsLetterKey "ipv6_cidr_a_block" := by decide
  have hrun : IsLetterKey "cidr_a_b4_block" := by decide
  have hapart : KeepsWordsApart "ipv6_cidr_a_block" := by decide
  refine ⟨hblock, (snakeWords_canonicalName_eq_key_iff hblock).1.mpr hapart, hrun, fun heq => ?_,
    (snakeWords_canonicalName_eq_key_iff hblock).2.mpr ⟨hapart, by decide⟩⟩
  exact absurd ((snakeWords_canonicalName_eq_key_iff hrun).1.mp heq) (by decide)

example : snakeWords (canonicalName "cidr_a_b4_block") = "cidr_ab4_block" ∧
    snakeWords (canonicalName "cidr_a_bc_block") = "cidr_a_bc_block" := by
  decide

end ProviderSdk.Text
