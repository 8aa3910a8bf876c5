import ProviderSdk.Convention
import ProviderSdk.Proofs.Text.Pieces

/-!
# Marks in names

What stands before the letters in ASCII, such as dots and slashes, has no other case and is no other
case of anything. So the names of directories and files that are made from a name have no marks but
its own.
-/

namespace ProviderSdk.Text

/-- Whether a character stands before the letters in ASCII, as digits, dots and slashes do. -/
def IsMark (c : Char) : Prop := 0 < c.toNat ∧ c.toNat < 65

instance (c : Char) : Decidable (IsMark c) := inferInstanceAs (Decidable (_ ∧ _))

theorem le_shifted {shifts : List CaseTable.Shift} (h : ∀ s ∈ shifts, 65 ≤ s.run.first + s.distance) {n : Nat}
    (hn : 128 ≤ n) : 65 ≤ CaseTable.shifted shifts n := by
  obtain hstays | ⟨s, hs, hfirst, -, hmoves⟩ := CaseTable.shifted_cases shifts n
  · omega
  · have hdistance := h s hs
    omega

theorem toNat_ofNat (n : Nat) : (Char.ofNat n).toNat = if n.isValidChar then n else 0 := by
  by_cases h : n.isValidChar
  · rw [Char.ofNat, dif_pos h, if_pos h]
    rfl
  · rw [Char.ofNat, dif_neg h, if_neg h]
    rfl

theorem not_isMark_ofNat {n : Nat} (h : 65 ≤ n) : ¬ IsMark (Char.ofNat n) := by
  rintro ⟨hpos, hlt⟩
  rw [toNat_ofNat] at hpos hlt
  split at hlt
  · omega
  · next hinvalid =>
    rw [if_neg hinvalid] at hpos
    exact Nat.lt_irrefl 0 hpos

/-- The other case of a character holds a mark only if the character is the mark and has no other
case; and it holds something. -/
structure KeepsMarks (f : Char → List Char) : Prop where
  ne_nil : ∀ c, f c ≠ []
  eq_of_mem : ∀ c mark, IsMark mark → mark ∈ f c → mark = c ∧ f c = [c]

/-- A case mapping that moves ASCII characters by a rule and others by tables. -/
theorem keepsMarks_of_tables {rule : Char → Char} {long : List (Nat × List Nat)}
    {shifts : List CaseTable.Shift}
    (hrule : ∀ n < 128, IsMark (rule (Char.ofNat n)) → rule (Char.ofNat n) = Char.ofNat n)
    (hlong : ∀ e ∈ long, e.2 ≠ [] ∧ ∀ code ∈ e.2, 65 ≤ code)
    (hshifts : ∀ s ∈ shifts, 65 ≤ s.run.first + s.distance) :
    KeepsMarks (fun c => if c.toNat < 128 then [rule c]
      else match long.lookup c.toNat with
        | some codes => charsOfCodes codes
        | none => [Char.ofNat (CaseTable.shifted shifts c.toNat)]) := by
  have hcodes {c : Char} {codes : List Nat} (h : long.lookup c.toNat = some codes) :
      codes ≠ [] ∧ ∀ code ∈ codes, 65 ≤ code := by
    obtain ⟨before, after, rfl, -⟩ := List.lookup_eq_some_iff.mp h
    exact hlong (c.toNat, codes) (by simp)
  refine ⟨fun c => ?_, fun c mark hmark hmem => ?_⟩
  · split
    · simp
    · cases hlookup : long.lookup c.toNat with
      | none => simp
      | some codes => simpa [charsOfCodes] using (hcodes hlookup).1
  · split at hmem
    · next hascii =>
      obtain rfl := List.mem_singleton.mp hmem
      have hc := hrule c.toNat hascii
      rw [Char.ofNat_toNat] at hc
      rw [if_pos hascii, hc hmark]
      exact ⟨rfl, rfl⟩
    · next hascii =>
      exfalso
      cases hlookup : long.lookup c.toNat with
      | none =>
        rw [hlookup] at hmem
        obtain rfl := List.mem_singleton.mp hmem
        exact not_isMark_ofNat (le_shifted hshifts (Nat.not_lt.mp hascii)) hmark
      | some codes =>
        rw [hlookup] at hmem
        obtain ⟨code, hcode, rfl⟩ := List.mem_map.mp hmem
        exact not_isMark_ofNat ((hcodes hlookup).2 code hcode) hmark

theorem keepsMarks_upperOf : KeepsMarks upperOf :=
  keepsMarks_of_tables (by decide +kernel) (by decide +kernel) (by decide +kernel)

theorem keepsMarks_lowerOf : KeepsMarks lowerOf :=
  keepsMarks_of_tables (by decide +kernel) (by decide +kernel) (by decide +kernel)

variable {f : Char → List Char} {mark : Char} {cs : List Char}

theorem KeepsMarks.mem_of_mem_flatMap (hf : KeepsMarks f) (hmark : IsMark mark) (h : mark ∈ cs.flatMap f) :
    mark ∈ cs := by
  obtain ⟨c, hc, hmem⟩ := List.mem_flatMap.mp h
  exact (hf.eq_of_mem c mark hmark hmem).1 ▸ hc

theorem KeepsMarks.eq_singleton (hf : KeepsMarks f) {c : Char} (h : ∀ c' ∈ f c, IsMark c') : f c = [c] := by
  obtain ⟨first, rest, hfirst⟩ := List.exists_cons_of_ne_nil (hf.ne_nil c)
  have hmem : first ∈ f c := by simp [hfirst]
  exact (hf.eq_of_mem c first (h first hmem) hmem).2

theorem KeepsMarks.flatMap_eq (hf : KeepsMarks f) (h : ∀ c ∈ cs.flatMap f, IsMark c) : cs.flatMap f = cs := by
  induction cs with
  | nil => rfl
  | cons c rest ih =>
    simp only [List.flatMap_cons, List.mem_append] at h ⊢
    rw [hf.eq_singleton (fun c' hc' => h c' (.inl hc')), ih (fun c' hc' => h c' (.inr hc'))]
    rfl

theorem mem_of_mem_capitalized (hmark : IsMark mark) (h : mark ∈ capitalized cs) : mark ∈ cs := by
  cases cs with
  | nil => exact h
  | cons c rest =>
    obtain h | h := List.mem_append.mp h
    · exact (keepsMarks_upperOf.eq_of_mem c mark hmark h).1 ▸ List.mem_cons_self
    · exact List.mem_cons_of_mem _ h

theorem capitalized_eq (h : ∀ c ∈ capitalized cs, IsMark c) : capitalized cs = cs := by
  cases cs with
  | nil => rfl
  | cons c rest =>
    rw [capitalized_cons, keepsMarks_upperOf.eq_singleton (fun c' hc' => h c' (List.mem_append_left _ hc'))]
    rfl

/-- What is left of a text without the separators of the parts of a name. -/
def withoutJoints (s : String) : List Char := s.toList.filter (fun c => !isJoint c)

theorem mem_pascalCase (hmark : IsMark mark) {s : String} (h : mark ∈ (pascalCase s).toList) :
    mark ∈ s.toList := by
  rw [pascalCase, String.toList_ofList, pascalChars] at h
  obtain ⟨piece, hpiece, hmem⟩ := List.mem_flatMap.mp h
  have hflat : mark ∈ (splitWhere isJoint s.toList).flatten :=
    List.mem_flatten.mpr ⟨piece, hpiece, mem_of_mem_capitalized hmark hmem⟩
  rw [flatten_splitWhere] at hflat
  exact (List.mem_filter.mp hflat).1

/-- If only marks are left of a name in Pascal case, it has them and separators only. -/
theorem pascalCase_eq {s : String} (h : ∀ c ∈ (pascalCase s).toList, IsMark c) :
    (pascalCase s).toList = withoutJoints s := by
  rw [pascalCase, String.toList_ofList, pascalChars] at h ⊢
  rw [withoutJoints, ← flatten_splitWhere]
  have hpieces (pieces : List (List Char)) (hmarks : ∀ c ∈ pieces.flatMap capitalized, IsMark c) :
      pieces.flatMap capitalized = pieces.flatten := by
    have hpiece : ∀ piece ∈ pieces, capitalized piece = piece := fun piece hpiece =>
      capitalized_eq (fun c hc => hmarks c (List.mem_flatMap.mpr ⟨piece, hpiece, hc⟩))
    rw [List.flatMap_def, List.map_congr_left hpiece, List.map_id']
  exact hpieces _ h

theorem mem_upperFirst (hmark : IsMark mark) {s : String} (h : mark ∈ (upperFirst s).toList) :
    mark ∈ s.toList := by
  rw [upperFirst, String.toList_ofList] at h
  exact mem_of_mem_capitalized hmark h

theorem mem_lower (hmark : IsMark mark) {s : String} (h : mark ∈ (lower s).toList) : mark ∈ s.toList := by
  rw [lower, String.toList_ofList] at h
  exact keepsMarks_lowerOf.mem_of_mem_flatMap hmark h

theorem lower_eq {s : String} (h : ∀ c ∈ (lower s).toList, IsMark c) : (lower s).toList = s.toList := by
  rw [lower, String.toList_ofList] at h ⊢
  exact keepsMarks_lowerOf.flatMap_eq h

/-- What holds of characters and their lower-case forms holds of the characters of words. -/
theorem forall_mem_wordsOfIdentifierFrom {holds : Char → Prop}
    (hlower : ∀ c, holds c → ∀ c' ∈ lowerOf c, holds c') {state : WordState} {current : List Char}
    (hcurrent : ∀ c ∈ current, holds c) (hcs : ∀ c ∈ cs, holds c) :
    ∀ word ∈ wordsOfIdentifierFrom state current cs, ∀ c ∈ word, holds c := by
  induction cs generalizing state current with
  | nil =>
    intro word hword
    cases state <;>
    · rw [wordsOfIdentifierFrom, List.mem_singleton] at hword
      exact hword ▸ hcurrent
  | cons c rest ih =>
    obtain ⟨hc, hrest⟩ := List.forall_mem_cons.mp hcs
    have hlowered {before : List Char} (h : ∀ c ∈ before, holds c) : ∀ c' ∈ before ++ lowerOf c, holds c' :=
      List.forall_mem_append.mpr ⟨h, hlower c hc⟩
    have hkept {before : List Char} (h : ∀ c ∈ before, holds c) : ∀ c' ∈ before ++ [c], holds c' :=
      List.forall_mem_append.mpr ⟨h, List.forall_mem_singleton.mpr hc⟩
    cases state with
    | first | upper =>
      rw [wordsOfIdentifierFrom]
      split
      · exact ih (hlowered hcurrent) hrest
      · exact ih (hkept hcurrent) hrest
    | acronym =>
      rw [wordsOfIdentifierFrom]
      split
      · exact ih (hlowered hcurrent) hrest
      · split
        · exact ih (hkept hcurrent) hrest
        · have hlast : ∀ c' ∈ current.getLast?.toList, holds c' :=
            fun c' hc' => hcurrent c' (List.mem_of_getLast? (Option.mem_toList.mp hc'))
          have hfirst : ∀ c' ∈ current.dropLast, holds c' :=
            fun c' hc' => hcurrent c' ((List.dropLast_sublist current).subset hc')
          exact List.forall_mem_cons.mpr ⟨hfirst, ih (hkept hlast) hrest⟩
    | lowerOrDigit =>
      rw [wordsOfIdentifierFrom]
      split
      · exact List.forall_mem_cons.mpr ⟨hcurrent, ih (hlower c hc) hrest⟩
      · exact ih (hkept hcurrent) hrest

theorem mem_joinWith {sep : List Char} {pieces : List (List Char)} {c : Char} (h : c ∈ joinWith sep pieces) :
    c ∈ sep ∨ ∃ piece ∈ pieces, c ∈ piece := by
  induction pieces with
  | nil => cases h
  | cons first rest ih =>
    cases rest with
    | nil => exact .inr ⟨first, List.mem_cons_self, h⟩
    | cons second rest =>
      rw [joinWith, List.mem_append, List.mem_append] at h
      · obtain (h | h) | h := h
        · exact .inr ⟨first, List.mem_cons_self, h⟩
        · exact .inl h
        · obtain hsep | ⟨piece, hpiece, hmem⟩ := ih h
          · exact .inl hsep
          · exact .inr ⟨piece, List.mem_cons_of_mem _ hpiece, hmem⟩
      · simp

theorem forall_mem_snakeWords (holds : Char → Prop) (hlower : ∀ c, holds c → ∀ c' ∈ lowerOf c, holds c')
    (hjoint : holds '_') {s : String} (h : ∀ c ∈ s.toList, holds c) :
    ∀ c ∈ (snakeWords s).toList, holds c := by
  intro c hc
  rw [snakeWords, String.toList_ofList] at hc
  obtain hjoint' | ⟨word, hword, hmem⟩ := mem_joinWith hc
  · rw [List.mem_singleton.mp hjoint']
    exact hjoint
  · exact forall_mem_wordsOfIdentifierFrom hlower (by simp) h word hword c hmem

theorem mem_snakeWords (hmark : IsMark mark) {s : String} (h : mark ∈ (snakeWords s).toList) :
    mark ∈ s.toList := by
  refine Decidable.byContradiction (fun hnot => ?_)
  have hlower (c : Char) (hc : c ≠ mark) : ∀ c' ∈ lowerOf c, c' ≠ mark := by
    rintro c' hc' rfl
    exact hc (keepsMarks_lowerOf.eq_of_mem c c' hmark hc').1.symm
  have hjoint : '_' ≠ mark := by
    rintro rfl
    exact absurd hmark (by decide)
  refine forall_mem_snakeWords (· ≠ mark) hlower hjoint (fun c hc => ?_) mark h rfl
  rintro rfl
  exact hnot hc

theorem mem_replace {s old new : String} {c : Char} (h : c ∈ (replace s old new).toList) :
    c ∈ new.toList ∨ c ∈ s.toList := by
  rw [replace, String.toList_ofList] at h
  exact mem_replaced h

end ProviderSdk.Text
