import Mathlib.Data.Set.Function
import ProviderSdk.Proofs.Text.SnakeKeys

/-!
# Keys and their canonical names

Keys whose words all begin with a letter correspond one to one to the names of letters and digits
that begin with a small letter: each capital of a name begins another word of its key. Such a name
is its own canonical name.
-/

namespace ProviderSdk.Text

/-- All words of a key are of small letters and digits, and begin with a letter. -/
def IsLetterKey (key : String) : Prop := ∀ w ∈ keyWords key, IsLetterWord w

/-- Letters and digits of ASCII that begin with a small letter. -/
def IsCamelName (name : String) : Prop :=
  name.toList.head?.any Char.isLower = true ∧ ∀ c ∈ name.toList, c.isAlphanum = true

instance (key : String) : Decidable (IsLetterKey key) := inferInstanceAs (Decidable (∀ _ ∈ _, _))

instance (name : String) : Decidable (IsCamelName name) :=
  -- Over the characters of the name only: an instance for all characters there are would never end.
  have : Decidable (∀ c ∈ name.toList, c.isAlphanum = true) := List.decidableBAll _ name.toList
  inferInstanceAs (Decidable (_ ∧ _))

theorem IsLetterKey.inSnakeCase {key : String} (h : IsLetterKey key) : InSnakeCase key :=
  ⟨fun w hw => (h w hw).1, fun w hw => h w (List.mem_of_mem_tail hw)⟩

section

variable {c : Char}

/-- What the other cases of a letter or digit are: a capital comes back from its small letter, and
what is no capital is plain. -/
structure IsAlphanumCase (c : Char) : Prop where
  notJoint : isJoint c = false
  notColon : c ≠ ':'
  upper : c.toUpper.isAlphanum = true
  plainOrUpper : isPlain c = true ∨ c.toLower.isLower = true ∧ upperOf c.toLower = [c]

instance (c : Char) : Decidable (IsAlphanumCase c) :=
  decidable_of_iff (isJoint c = false ∧ c ≠ ':' ∧ c.toUpper.isAlphanum = true ∧
      (isPlain c = true ∨ c.toLower.isLower = true ∧ upperOf c.toLower = [c]))
    ⟨fun ⟨a, b, d, e⟩ => ⟨a, b, d, e⟩, fun ⟨a, b, d, e⟩ => ⟨a, b, d, e⟩⟩

theorem isAlphanum_iff : c.isAlphanum = true ↔ c.isUpper = true ∨ isPlain c = true := by
  have hassoc : c.isAlphanum = (c.isUpper || isPlain c) := Bool.or_assoc c.isUpper c.isLower c.isDigit
  rw [hassoc, Bool.or_eq_true_iff]

theorem toNat_lt_of_isAlphanum (h : c.isAlphanum = true) : c.toNat < 128 := by
  obtain hupper | hplain := isAlphanum_iff.mp h
  · have hle : c.toNat ≤ 90 := UInt32.le_iff_toNat_le.mp (of_decide_eq_true hupper).2
    omega
  · exact toNat_lt_of_isPlain hplain

theorem isAlphanumCase (h : c.isAlphanum = true) : IsAlphanumCase c := by
  have hascii : ∀ n < 128, (Char.ofNat n).isAlphanum = true →
      IsAlphanumCase (Char.ofNat n) := by decide +kernel
  have hc := hascii c.toNat (toNat_lt_of_isAlphanum h)
  rw [Char.ofNat_toNat] at hc
  exact hc h

theorem isAlphanum_of_isPlain (h : isPlain c = true) : c.isAlphanum = true := isAlphanum_iff.mpr (.inr h)

end

theorem exists_words_of_isAlphanum {cs : List Char} (h : ∀ c ∈ cs, c.isAlphanum = true) :
    ∃ (first : List Char) (rest : List (List Char)), (∀ c ∈ first, isPlain c = true) ∧
      (∀ w ∈ rest, IsLetterWord w) ∧ cs = first ++ rest.flatMap capitalized := by
  induction cs with
  | nil => exact ⟨[], [], by simp, by simp, rfl⟩
  | cons c cs ih =>
    obtain ⟨hc, hcs⟩ := List.forall_mem_cons.mp h
    obtain ⟨first, rest, hfirst, hrest, rfl⟩ := ih hcs
    obtain hplain | ⟨hlower, hupper⟩ := (isAlphanumCase hc).plainOrUpper
    · exact ⟨c :: first, rest, List.forall_mem_cons.mpr ⟨hplain, hfirst⟩, hrest, rfl⟩
    · have hword : IsLetterWord (c.toLower :: first) := by
        refine ⟨⟨List.cons_ne_nil _ _, List.all_eq_true.mpr ?_⟩, hlower⟩
        exact List.forall_mem_cons.mpr ⟨isPlain_of_isLower hlower, hfirst⟩
      refine ⟨[], (c.toLower :: first) :: rest, by simp, List.forall_mem_cons.mpr ⟨hword, hrest⟩, ?_⟩
      rw [List.nil_append, List.flatMap_cons, capitalized_cons, hupper, List.singleton_append,
        List.cons_append]

theorem keyWords_joinWith {first : List Char} {rest : List (List Char)} (hfirst : IsLetterWord first)
    (hrest : ∀ w ∈ rest, IsLetterWord w) :
    keyWords (String.ofList (joinWith ['_'] (first :: rest))) = first :: rest := by
  have hjoint {w : List Char} (hw : IsLetterWord w) : '_' ∉ w :=
    fun hmem => absurd (hw.1.isPlain _ hmem) (by decide)
  rw [keyWords, String.toList_ofList, joinWith_cons]
  exact splitAt_append_flatMap (hjoint hfirst) (fun w hw => hjoint (hrest w hw))

theorem IsCamelName.exists_key {name : String} (h : IsCamelName name) :
    ∃ key, IsLetterKey key ∧ canonicalName key = name := by
  obtain ⟨hhead, hchars⟩ := h
  obtain ⟨first, rest, hfirst, hrest, hname⟩ := exists_words_of_isAlphanum hchars
  have hword : IsLetterWord first := by
    cases first with
    | nil =>
      cases rest with
      | nil =>
        rw [hname] at hhead
        cases hhead
      | cons w rest =>
        obtain ⟨c, cs, rfl, hlower, -, hcapitalized⟩ := (hrest w List.mem_cons_self).exists_capitalized
        rw [hname, List.nil_append, List.flatMap_cons, hcapitalized] at hhead
        have hupper := (isPlainCase (isPlain_of_isLower hlower)).upperIsUppercase hlower
        exact absurd hupper (by simp [(isPlainCase (isPlain_of_isLower hhead)).notUppercase])
    | cons c cs =>
      rw [hname] at hhead
      exact ⟨⟨List.cons_ne_nil _ _, List.all_eq_true.mpr hfirst⟩, hhead⟩
  have hwords := keyWords_joinWith hword hrest
  have hkey : IsLetterKey (String.ofList (joinWith ['_'] (first :: rest))) := by
    rw [IsLetterKey, hwords]
    exact List.forall_mem_cons.mpr ⟨hword, hrest⟩
  refine ⟨_, hkey, ?_⟩
  obtain ⟨first', rest', heq, -, -, -, hcanonical⟩ := hkey.inSnakeCase.exists_words
  obtain ⟨rfl, rfl⟩ := List.cons.inj (hwords.symm.trans heq)
  exact String.toList_injective (hcanonical.trans hname.symm)

theorem InSnakeCase.isAlphanum_canonicalName {key : String} (h : InSnakeCase key) :
    ∀ c ∈ (canonicalName key).toList, c.isAlphanum = true :=
  h.forall_mem_canonicalName (fun _ hc => isAlphanum_of_isPlain hc)
    (fun _ hc => (isAlphanumCase (isAlphanum_of_isPlain (isPlain_of_isLower hc))).upper)

/-- The canonical name of a key has letters and digits, and begins with a small letter. -/
theorem IsLetterKey.isCamelName {key : String} (h : IsLetterKey key) : IsCamelName (canonicalName key) := by
  obtain ⟨first, rest, hwords, -, -, -, hname⟩ := h.inSnakeCase.exists_words
  have hfirst : IsLetterWord first := h first (by rw [hwords]; exact List.mem_cons_self)
  obtain ⟨c, cs, rfl, hlower, -⟩ := hfirst.exists_capitalized
  refine ⟨?_, h.inSnakeCase.isAlphanum_canonicalName⟩
  rw [hname]
  exact hlower

/-- A name without separators is its own canonical name. -/
theorem IsCamelName.canonicalName_eq {name : String} (h : IsCamelName name) : canonicalName name = name := by
  have hcolon : withoutColon name.toList = name.toList := by
    have hlast : name.toList.getLast? ≠ [':'].getLast? :=
      fun hlast => (isAlphanumCase (h.2 ':' (List.mem_of_getLast? hlast))).notColon rfl
    rw [withoutColon, beforeEnd?_eq_none hlast (List.cons_ne_nil _ _), Option.getD_none]
  have hjoints : splitWhere isJoint name.toList = [name.toList] :=
    splitWhere_of_forall (fun c hc => (isAlphanumCase (h.2 c hc)).notJoint)
  apply String.toList_injective
  rw [canonicalName, String.toList_ofList, hcolon, camelChars, hjoints]
  simp

/-- The canonical name of a key is a name one to one, with the key of a canonical name as its
inverse; and a name is its own canonical name. -/
theorem canonicalName_bijOn :
    Set.BijOn canonicalName {key | IsLetterKey key} {name | IsCamelName name} ∧
      Set.InvOn keyOfCanonicalName canonicalName {key | IsLetterKey key} {name | IsCamelName name} ∧
      Set.EqOn canonicalName id {name | IsCamelName name} := by
  have hleft : Set.LeftInvOn keyOfCanonicalName canonicalName {key | IsLetterKey key} :=
    fun key hkey => (IsLetterKey.inSnakeCase hkey).keyOfCanonicalName_canonicalName
  have hmaps : Set.MapsTo canonicalName {key | IsLetterKey key} {name | IsCamelName name} :=
    fun key hkey => IsLetterKey.isCamelName hkey
  have hsurj : Set.SurjOn canonicalName {key | IsLetterKey key} {name | IsCamelName name} :=
    fun name hname => IsCamelName.exists_key hname
  have hright : Set.RightInvOn keyOfCanonicalName canonicalName {name | IsCamelName name} :=
    hleft.rightInvOn_image.mono hsurj
  exact ⟨⟨hmaps, hleft.injOn, hsurj⟩, ⟨hleft, hright⟩, fun name hname => IsCamelName.canonicalName_eq hname⟩

example : IsLetterKey "ipv6_cidr_a_block" ∧ canonicalName "ipv6_cidr_a_block" = "ipv6CidrABlock" ∧
    keyOfCanonicalName "ipv6CidrABlock" = "ipv6_cidr_a_block" := by
  decide

end ProviderSdk.Text
