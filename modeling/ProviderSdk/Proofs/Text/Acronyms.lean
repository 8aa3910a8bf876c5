import ProviderSdk.Proofs.Text.Identifiers

/-!
# Acronyms in identifiers

Where an identifier is cut into words depends on three characters only: a word begins with a capital
that follows none, and with the last capital of an acronym that runs into a small letter. The
cutting itself decides about a capital one character late. Here it is compared with a cut that looks
ahead.
-/

namespace ProviderSdk.Text

/-- Whether a word begins with the character `c`, which stands between two others. -/
def beginsWord (before c : Char) (next? : Option Char) : Bool :=
  isUppercase c && !isUppercase before ||
    isUppercase c && isUppercase before && next?.any (fun next => !isUppercase next && !next.isDigit)

/-- A capital in lower case, any other character as it is. -/
def uncapital (c : Char) : List Char := if isUppercase c then lowerOf c else [c]

def wordsByCapitals : List Char → List (List Char)
  | [] => [[]]
  | [c] => [uncapital c]
  | before :: c :: rest =>
    if beginsWord before c rest.head? then uncapital before :: wordsByCapitals (c :: rest)
    else (wordsByCapitals (c :: rest)).modifyHead (uncapital before ++ ·)

/-- Every capital of a text has a single small letter. -/
def HasSingleLowers (cs : List Char) : Prop := ∀ c ∈ cs, isUppercase c = true → (lowerOf c).length = 1

instance (cs : List Char) : Decidable (HasSingleLowers cs) :=
  List.decidableBAll (fun c => isUppercase c = true → (lowerOf c).length = 1) cs

variable {before c last : Char} {current cs rest : List Char} {words : List (List Char)}

theorem HasSingleLowers.of_cons (h : HasSingleLowers (c :: rest)) : HasSingleLowers rest :=
  fun d hd => h d (List.mem_cons_of_mem c hd)

theorem HasSingleLowers.exists_lower (h : HasSingleLowers (c :: rest)) (hc : isUppercase c = true) :
    ∃ small, lowerOf c = [small] :=
  List.length_eq_one_iff.mp (h c List.mem_cons_self hc)

theorem HasSingleLowers.length_uncapital (h : HasSingleLowers (c :: rest)) : (uncapital c).length = 1 := by
  rw [uncapital]
  split
  · next hc => exact h c List.mem_cons_self hc
  · rfl

theorem wordsByCapitals_ne_nil (cs : List Char) : wordsByCapitals cs ≠ [] := by
  fun_induction wordsByCapitals cs <;> simp_all [List.modifyHead_eq_nil_iff]

theorem beginsWord_of_not_capital (hc : isUppercase c = false) (next? : Option Char) :
    beginsWord before c next? = false := by
  simp [beginsWord, hc]

theorem beginsWord_behind_small (hc : isUppercase c = true) (hbefore : isUppercase before = false)
    (next? : Option Char) :
    beginsWord before c next? = true := by
  simp [beginsWord, hc, hbefore]

theorem beginsWord_behind_capital (hc : isUppercase c = true) (hbefore : isUppercase before = true)
    (next? : Option Char) :
    beginsWord before c next? = next?.any (fun next => !isUppercase next && !next.isDigit) := by
  simp [beginsWord, hc, hbefore]

/-- What is made of a character that has been read and of what is ahead. Behind `last`, if it is no
capital, nothing is undecided, and neither is it behind a capital that begins a word. Behind a
second capital it is: the next character tells whether `last` belongs to the word. -/
theorem wordsOfIdentifierFrom_eq (h : HasSingleLowers (last :: cs)) :
    (isUppercase last = false → ∀ current, wordsOfIdentifierFrom .lowerOrDigit (current ++ [last]) cs =
      (wordsByCapitals (last :: cs)).modifyHead (current ++ ·)) ∧
    (isUppercase last = true → wordsOfIdentifierFrom .upper (lowerOf last) cs =
      wordsByCapitals (last :: cs)) ∧
    (isUppercase last = true → ∀ before current, isUppercase before = true →
      wordsOfIdentifierFrom .acronym (current ++ lowerOf last) cs =
        if beginsWord before last cs.head? then current :: wordsByCapitals (last :: cs)
        else (wordsByCapitals (last :: cs)).modifyHead (current ++ ·)) := by
  induction cs generalizing last with
  | nil => simp +contextual [wordsOfIdentifierFrom, wordsByCapitals, uncapital, beginsWord]
  | cons c rest ih =>
    obtain ⟨hplain, hupper, hacronym⟩ := ih h.of_cons
    by_cases hc : isUppercase c = true
    · refine ⟨fun hlast current => ?_, fun hlast => ?_, fun hlast before current hbefore => ?_⟩
      · rw [wordsOfIdentifierFrom, if_pos hc, hupper hc, wordsByCapitals, beginsWord_behind_small hc hlast]
        simp [uncapital, hlast]
      · rw [wordsOfIdentifierFrom, if_pos hc, hacronym hc last _ hlast, wordsByCapitals,
          uncapital, if_pos hlast]
      · have hopen : beginsWord before last (c :: rest).head? = false := by
          simp [beginsWord_behind_capital hlast hbefore, hc]
        rw [wordsOfIdentifierFrom, if_pos hc, hacronym hc last _ hlast, hopen, wordsByCapitals,
          uncapital, if_pos hlast]
        split <;> simp [Function.comp_def]
    · have hsmall : isUppercase c = false := by simpa using hc
      have hgoesOn : wordsByCapitals (last :: c :: rest) =
          (wordsByCapitals (c :: rest)).modifyHead (uncapital last ++ ·) := by
        simp [wordsByCapitals, beginsWord_of_not_capital hsmall]
      rw [hgoesOn]
      refine ⟨fun hlast current => ?_, fun hlast => ?_, fun hlast before current hbefore => ?_⟩
      · rw [wordsOfIdentifierFrom, if_neg hc, hplain hsmall, uncapital, hlast]
        simp [Function.comp_def]
      · rw [wordsOfIdentifierFrom, if_neg hc, hplain hsmall, uncapital, if_pos hlast]
      · rw [wordsOfIdentifierFrom, if_neg hc, beginsWord_behind_capital hlast hbefore,
          uncapital, if_pos hlast]
        by_cases hdigit : c.isDigit = true
        · rw [if_pos hdigit, hplain hsmall]
          simp [hdigit, Function.comp_def]
        · -- The last capital is given back, for the word that begins with it.
          obtain ⟨small, hlower⟩ := h.exists_lower hlast
          have hrest := hplain hsmall [small]
          simp_all

theorem wordsOfIdentifier_eq (h : HasSingleLowers cs) : wordsOfIdentifier cs = wordsByCapitals cs := by
  cases cs with
  | nil => rfl
  | cons c rest =>
    obtain ⟨hplain, hupper, -⟩ := wordsOfIdentifierFrom_eq h
    rw [wordsOfIdentifier, wordsOfIdentifierFrom]
    split
    · next hc => simpa using hupper hc
    · next hc =>
      have hwords := hplain (by simpa using hc) []
      cases hcut : wordsByCapitals (c :: rest) with
      | nil => exact absurd hcut (wordsByCapitals_ne_nil _)
      | cons word words => simpa [hcut] using hwords

theorem flatten_modifyHead (current : List Char) (hwords : words ≠ []) :
    (words.modifyHead (current ++ ·)).flatten = current ++ words.flatten := by
  cases words with
  | nil => exact absurd rfl hwords
  | cons word words => simp

theorem flatten_wordsByCapitals (cs : List Char) : (wordsByCapitals cs).flatten = cs.flatMap uncapital := by
  fun_induction wordsByCapitals cs with
  | case1 => rfl
  | case2 c => simp
  | case3 before c rest _ ih => rw [List.flatten_cons, ih, ← List.flatMap_cons]
  | case4 before c rest _ ih => rw [flatten_modifyHead _ (wordsByCapitals_ne_nil _), ih, ← List.flatMap_cons]

theorem uncapital_ne_nil (c : Char) : uncapital c ≠ [] := by
  rw [uncapital]
  split
  · exact keepsMarks_lowerOf.ne_nil c
  · exact List.cons_ne_nil _ _

theorem nil_mem_wordsByCapitals_iff : [] ∈ wordsByCapitals cs ↔ cs = [] := by
  fun_induction wordsByCapitals cs with
  | case1 => simp
  | case2 c => simp [(uncapital_ne_nil c).symm]
  | case3 before c rest _ ih => simp [(uncapital_ne_nil before).symm, ih]
  | case4 before c rest _ ih =>
    cases hcut : wordsByCapitals (c :: rest) with
    | nil => exact absurd hcut (wordsByCapitals_ne_nil _)
    | cons word words =>
      rw [hcut] at ih
      simp_all [uncapital_ne_nil before]

/-- A piece other than the first begins at position `i` of the text that the pieces make. -/
def IsBoundary (pieces : List (List Char)) (i : Nat) : Prop :=
  ∃ before after, before ≠ [] ∧ after ≠ [] ∧ pieces = before ++ after ∧ before.flatten.length = i

theorem not_isBoundary_singleton (w : List Char) (i : Nat) : ¬ IsBoundary [w] i := by
  rintro ⟨before, after, hbefore, hafter, heq, -⟩
  rcases List.append_eq_singleton_iff.mp heq.symm with ⟨rfl, -⟩ | ⟨-, rfl⟩
  · exact hbefore rfl
  · exact hafter rfl

theorem not_isBoundary_zero {pieces : List (List Char)} (h : [] ∉ pieces) : ¬ IsBoundary pieces 0 := by
  rintro ⟨before, after, hbefore, -, rfl, hlength⟩
  obtain ⟨w, ws, rfl⟩ := List.exists_cons_of_ne_nil hbefore
  have hw : w = [] := by simp_all
  simp [hw] at h

theorem isBoundary_cons {w : List Char} {pieces : List (List Char)} (hpieces : pieces ≠ []) (i : Nat) :
    IsBoundary (w :: pieces) (w.length + i) ↔ i = 0 ∨ IsBoundary pieces i := by
  constructor
  · rintro ⟨before, after, hbefore, hafter, heq, hlength⟩
    obtain ⟨w', before, rfl⟩ := List.exists_cons_of_ne_nil hbefore
    obtain ⟨rfl, rfl⟩ := List.cons.inj heq
    have hrest : before.flatten.length = i := by simpa using hlength
    cases before with
    | nil => exact .inl (by simpa using hrest.symm)
    | cons v before => exact .inr ⟨v :: before, after, by simp, hafter, rfl, hrest⟩
  · rintro (rfl | ⟨before, after, hbefore, hafter, rfl, rfl⟩)
    · exact ⟨[w], pieces, by simp, hpieces, rfl, by simp⟩
    · exact ⟨w :: before, after, by simp, hafter, rfl, by simp⟩

theorem isBoundary_modifyHead (current : List Char) {pieces : List (List Char)} (hpieces : pieces ≠ [])
    (i : Nat) :
    IsBoundary (pieces.modifyHead (current ++ ·)) (current.length + i) ↔ IsBoundary pieces i := by
  obtain ⟨w, pieces, rfl⟩ := List.exists_cons_of_ne_nil hpieces
  simp only [List.modifyHead_cons]
  constructor
  · rintro ⟨before, after, hbefore, hafter, heq, hlength⟩
    obtain ⟨w', before, rfl⟩ := List.exists_cons_of_ne_nil hbefore
    obtain ⟨rfl, rfl⟩ := List.cons.inj heq
    refine ⟨w :: before, after, by simp, hafter, rfl, ?_⟩
    simp only [List.flatten_cons, List.length_append] at hlength ⊢
    omega
  · rintro ⟨before, after, hbefore, hafter, heq, rfl⟩
    obtain ⟨w', before, rfl⟩ := List.exists_cons_of_ne_nil hbefore
    obtain ⟨rfl, rfl⟩ := List.cons.inj heq
    exact ⟨(current ++ w) :: before, after, by simp, hafter, rfl, by simp⟩

/-- A word begins with the character behind position `i`. -/
def WordBeginsBehind (cs : List Char) (i : Nat) : Prop :=
  ∃ before c, cs[i]? = some before ∧ cs[i + 1]? = some c ∧ beginsWord before c cs[i + 2]? = true

theorem wordBeginsBehind_zero :
    WordBeginsBehind (before :: c :: rest) 0 ↔ beginsWord before c rest.head? = true := by
  simp [WordBeginsBehind, List.head?_eq_getElem?]

theorem wordBeginsBehind_succ (i : Nat) : WordBeginsBehind (c :: rest) (i + 1) ↔ WordBeginsBehind rest i := by
  simp [WordBeginsBehind]

theorem isBoundary_wordsByCapitals (h : HasSingleLowers cs) (i : Nat) :
    IsBoundary (wordsByCapitals cs) (i + 1) ↔ WordBeginsBehind cs i := by
  fun_induction wordsByCapitals cs generalizing i with
  | case1 => simp [not_isBoundary_singleton, WordBeginsBehind]
  | case2 c => simp [not_isBoundary_singleton, WordBeginsBehind]
  | case3 before c rest hbegins ih =>
    have hcons := isBoundary_cons (w := uncapital before) (wordsByCapitals_ne_nil (c :: rest)) i
    rw [h.length_uncapital, Nat.add_comm] at hcons
    rw [hcons]
    cases i with
    | zero => simp [wordBeginsBehind_zero, hbegins]
    | succ i => simp [wordBeginsBehind_succ, ih h.of_cons]
  | case4 before c rest hbegins ih =>
    have hmodify := isBoundary_modifyHead (uncapital before) (wordsByCapitals_ne_nil (c :: rest)) i
    rw [h.length_uncapital, Nat.add_comm] at hmodify
    rw [hmodify]
    cases i with
    | zero => simp [wordBeginsBehind_zero, hbegins, not_isBoundary_zero, nil_mem_wordsByCapitals_iff]
    | succ i => simp [wordBeginsBehind_succ, ih h.of_cons]

theorem wordsByCapitals_of_small (h : ∀ c ∈ cs, isUppercase c = false) : wordsByCapitals cs = [cs] := by
  fun_induction wordsByCapitals cs with
  | case1 => rfl
  | case2 c => simp [uncapital, h c]
  | case3 before c rest hbegins ih =>
    rw [beginsWord_of_not_capital (h c (by simp))] at hbegins
    cases hbegins
  | case4 before c rest _ ih =>
    simp [ih (fun d hd => h d (List.mem_cons_of_mem before hd)), uncapital, h before]

theorem snakeWords_of_small {s : String} (h : ∀ c ∈ s.toList, isUppercase c = false) : snakeWords s = s := by
  have hsingle : HasSingleLowers s.toList := fun c hc hupper => by simp [h c hc] at hupper
  rw [snakeWords, wordsOfIdentifier_eq hsingle, wordsByCapitals_of_small h, joinWith, String.ofList_toList]

theorem isUppercase_of_mem_uncapital (hascii : c.toNat < 128) : ∀ d ∈ uncapital c, isUppercase d = false := by
  rw [uncapital]
  split
  · next hc =>
    exact lowerOf_of_ascii (P := fun c => isUppercase c = true) (Q := fun c => isUppercase c = false)
      (by decide +kernel)
      hascii hc
  · next hc => simpa using hc

theorem hasSingleLowers_of_ascii (h : ∀ c ∈ cs, c.toNat < 128) : HasSingleLowers cs := by
  intro c hc _
  simp [lowerOf, h c hc]

theorem isUppercase_of_mem_snakeWords {name : String} (h : ∀ c ∈ name.toList, c.toNat < 128) :
    ∀ c ∈ (snakeWords name).toList, isUppercase c = false := by
  intro c hc
  rw [snakeWords, String.toList_ofList, wordsOfIdentifier_eq (hasSingleLowers_of_ascii h)] at hc
  obtain hjoint | ⟨word, hword, hmem⟩ := mem_joinWith hc
  · rw [List.mem_singleton.mp hjoint]
    decide
  · have hflat : c ∈ (wordsByCapitals name.toList).flatten := List.mem_flatten.mpr ⟨word, hword, hmem⟩
    rw [flatten_wordsByCapitals] at hflat
    obtain ⟨d, hd, hmem⟩ := List.mem_flatMap.mp hflat
    exact isUppercase_of_mem_uncapital (h d hd) c hmem

/-- The words of a name, where every capital has a single small letter, are the name in lower case
when put together. None of them is empty unless the name is, and they begin where the rule for three
characters says so. The snake case of an ASCII name is its own snake case. -/
theorem splitWords_boundaries :
    (∀ name : String, HasSingleLowers name.toList →
      String.join (splitWords name) = String.ofList (name.toList.flatMap uncapital) ∧
      ("" ∈ splitWords name ↔ name = "") ∧
      ∀ i, IsBoundary ((splitWords name).map String.toList) (i + 1) ↔ WordBeginsBehind name.toList i) ∧
    ∀ name : String, (∀ c ∈ name.toList, c.toNat < 128) → snakeWords (snakeWords name) = snakeWords name := by
  refine ⟨fun name hname => ?_, fun name hascii => snakeWords_of_small (isUppercase_of_mem_snakeWords hascii)⟩
  have hwords : (splitWords name).map String.toList = wordsByCapitals name.toList := by
    simp [splitWords, wordsOfIdentifier_eq hname, Function.comp_def]
  refine ⟨?_, ?_, fun i => ?_⟩
  · apply String.toList_injective
    rw [String.toList_join, List.flatMap_def, hwords, flatten_wordsByCapitals, String.toList_ofList]
  · have hmem : "" ∈ splitWords name ↔ [] ∈ wordsByCapitals name.toList := by
      rw [← hwords, List.mem_map]
      simp
    rw [hmem, nil_mem_wordsByCapitals_iff, String.toList_eq_nil_iff]
  · rw [hwords]
    exact isBoundary_wordsByCapitals hname i

theorem rootCertificate_boundaries :
    HasSingleLowers "rootCAÉd2ID".toList ∧
    String.join (splitWords "rootCAÉd2ID") = "rootcaéd2id" ∧
    "" ∉ splitWords "rootCAÉd2ID" ∧
    IsBoundary ((splitWords "rootCAÉd2ID").map String.toList) 6 ∧
    ¬ IsBoundary ((splitWords "rootCAÉd2ID").map String.toList) 5 ∧
    (∀ c ∈ "SHA256Hash".toList, c.toNat < 128) ∧
    snakeWords (snakeWords "SHA256Hash") = snakeWords "SHA256Hash" := by
  have hsingle : HasSingleLowers "rootCAÉd2ID".toList := by decide +kernel
  have hascii : ∀ c ∈ "SHA256Hash".toList, c.toNat < 128 := by simp
  obtain ⟨hjoin, hempty, hboundary⟩ := splitWords_boundaries.1 _ hsingle
  refine ⟨hsingle, hjoin.trans (by decide +kernel), by simp [hempty], (hboundary 5).mpr ?_,
    fun h => ?_, hascii, splitWords_boundaries.2 _ hascii⟩
  · exact ⟨'A', 'É', rfl, rfl, by decide +kernel⟩
  · obtain ⟨before, c, hbefore, hc, hbegins⟩ := (hboundary 4).mp h
    cases hbefore
    cases hc
    exact absurd hbegins (by decide +kernel)

example : splitWords "SHA256Hash" = ["sha256", "hash"] ∧ splitWords "someABCd" = ["some", "ab", "cd"] := by
  decide

end ProviderSdk.Text
