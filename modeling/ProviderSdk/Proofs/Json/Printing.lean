import ProviderSdk.Json.Printer
import ProviderSdk.Json.Reading
import ProviderSdk.Proofs.Decimal.Layout

/-!
# Printed values

The indented text of a value determines the value, as long as its numbers are finite. Where the text
of a value stands before a comma or a line break, as it does inside of arrays and objects, the value
and what follows it can be told apart.
-/

namespace ProviderSdk.Json

open Decimal

/-- A value whose floating-point numbers are finite. -/
inductive Finite : Json → Prop where
  | null : Finite .null
  | bool (b) : Finite (.bool b)
  | int (n) : Finite (.num (.int n))
  | float {x} (finite : x.isFinite = true) : Finite (.num (.float x))
  | str (s) : Finite (.str s)
  | arr {items} (each : ∀ item ∈ items, Finite item) : Finite (.arr items)
  | obj {members} (each : ∀ m : String × Json, m ∈ members → Finite m.2) : Finite (.obj members)

/-- The first character that is written in a text between quotes, and what follows it. -/
def unescape? : List Char → Option (Char × List Char)
  | '\\' :: 'u' :: _ :: _ :: high :: low :: rest => do
    let high ← Text.hexValue? high
    let low ← Text.hexValue? low
    some (Char.ofNat (16 * high + low), rest)
  | '\\' :: c :: rest => (Reader.simpleEscape? c).map (fun c => (c, rest))
  | c :: rest => some (c, rest)
  | [] => none

theorem hexValue?_hexDigit {n : Nat} (h : n < 16) : Text.hexValue? (hexDigit n) = some n := by
  have hall : ∀ n < 16, Text.hexValue? (hexDigit n) = some n := by decide
  exact hall n h

theorem unescape?_cons {c : Char} (h : c ≠ '\\') (rest : List Char) :
    unescape? (c :: rest) = some (c, rest) := by
  unfold unescape?
  split
  · next heq =>
    cases heq
    exact absurd rfl h
  · next heq =>
    cases heq
    exact absurd rfl h
  · next heq =>
    cases heq
    rfl
  · next heq => cases heq

/-- A character is written as a one-letter escape, as an escape by its code, or as it is. -/
theorem escaped_cases (c : Char) :
    (∃ letter, escaped c = ['\\', letter] ∧ Reader.simpleEscape? letter = some c) ∨
      (escaped c = ['\\', 'u', '0', '0', hexDigit (c.toNat / 16), hexDigit (c.toNat % 16)] ∧ c.toNat < 32) ∨
      (escaped c = [c] ∧ c ≠ '"' ∧ c ≠ '\\' ∧ 32 ≤ c.toNat) := by
  have hletter {letter d : Char} (hread : Reader.simpleEscape? letter = some d) (h : c.toNat = d.toNat) :
      ∃ letter', ['\\', letter] = ['\\', letter'] ∧ Reader.simpleEscape? letter' = some c :=
    ⟨letter, rfl, Char.toNat_inj.mp h ▸ hread⟩
  unfold escaped
  split
  · next h => exact .inl (hletter rfl (by rw [h]))
  next hquote =>
  split
  · next h => exact .inl (hletter rfl (by rw [h]))
  next hbackslash =>
  split
  · next h => exact .inl (hletter rfl h)
  split
  · next h => exact .inl (hletter rfl h)
  split
  · next h => exact .inl (hletter rfl h)
  split
  · next h => exact .inl (hletter rfl h)
  split
  · next h => exact .inl (hletter rfl h)
  split
  · next h => exact .inr (.inl ⟨rfl, h⟩)
  · next h => exact .inr (.inr ⟨rfl, hquote, hbackslash, by omega⟩)

theorem unescape?_escaped (c : Char) (rest : List Char) : unescape? (escaped c ++ rest) = some (c, rest) := by
  rcases escaped_cases c with ⟨letter, hc, hletter⟩ | ⟨hc, hcode⟩ | ⟨hc, -, hbackslash, -⟩
  · rw [hc, List.cons_append, List.cons_append, List.nil_append]
    unfold unescape?
    split
    · next heq =>
      cases heq
      cases hletter
    · next heq =>
      cases heq
      rw [hletter, Option.map_some]
    · next hother heq =>
      cases heq
      exact absurd rfl (hother _ _ rfl)
    · next heq => cases heq
  · have hhigh := hexValue?_hexDigit (n := c.toNat / 16) (by omega)
    have hlow := hexValue?_hexDigit (n := c.toNat % 16) (by omega)
    simp [hc, unescape?, hhigh, hlow, Nat.div_add_mod]
  · rw [hc]
    exact unescape?_cons hbackslash rest

theorem escaped_append_inj {c d : Char} {s t : List Char} (h : escaped c ++ s = escaped d ++ t) :
    c = d ∧ s = t := by
  have hread := congrArg unescape? h
  rw [unescape?_escaped, unescape?_escaped] at hread
  exact Prod.mk.inj (Option.some.inj hread)

theorem quote_ne_escaped (c : Char) (s t : List Char) : '"' :: s ≠ escaped c ++ t := by
  intro h
  have hread := congrArg unescape? h
  rw [unescape?_cons (by decide), unescape?_escaped] at hread
  obtain ⟨rfl, rfl⟩ := Prod.mk.inj (Option.some.inj hread)
  have hlength := congrArg List.length h
  simp [escaped] at hlength

theorem quotedChars_append_inj {cs ds s t : List Char} (h : quotedChars cs ++ s = quotedChars ds ++ t) :
    cs = ds ∧ s = t := by
  unfold quotedChars at h
  simp only [List.cons_append, List.append_assoc, List.nil_append, List.cons.injEq, true_and] at h
  induction cs generalizing ds with
  | nil =>
    cases ds with
    | nil => exact ⟨rfl, (List.cons.inj h).2⟩
    | cons d ds =>
      rw [List.flatMap_cons, List.append_assoc] at h
      exact absurd h (quote_ne_escaped d _ _)
  | cons c cs ih =>
    cases ds with
    | nil =>
      rw [List.flatMap_cons, List.append_assoc] at h
      exact absurd h.symm (quote_ne_escaped c _ _)
    | cons d ds =>
      rw [List.flatMap_cons, List.flatMap_cons, List.append_assoc, List.append_assoc] at h
      obtain ⟨rfl, hrest⟩ := escaped_append_inj h
      obtain ⟨rfl, hfollows⟩ := ih hrest
      exact ⟨rfl, hfollows⟩

theorem toList_quoted (s : String) : (quoted s).toList = quotedChars s.toList := by
  rw [quoted, String.toList_ofList]

theorem toList_toString_int (n : Int) :
    (toString n).toList = (if n < 0 then ['-'] else []) ++ digitsOf n.natAbs := by
  cases n with
  | ofNat n => exact Nat.toList_repr
  | negSucc n =>
    have hrepr : toString (Int.negSucc n) = "-" ++ Nat.repr (n + 1) := rfl
    rw [hrepr, String.toList_append, Nat.toList_repr, if_pos (Int.negSucc_lt_zero n)]
    rfl

theorem toString_int_inj {m n : Int} (h : (toString m).toList = (toString n).toList) : m = n := by
  have hsign (n : Int) : takeSign ((if n < 0 then ['-'] else []) ++ digitsOf n.natAbs) =
      (decide (n < 0), digitsOf n.natAbs) := by
    by_cases hn : n < 0
    · simp [takeSign, hn]
    · simp [takeSign_digitsOf, hn]
  rw [toList_toString_int, toList_toString_int] at h
  have hread := congrArg takeSign h
  rw [hsign, hsign] at hread
  obtain ⟨hnegative, hdigits⟩ := Prod.mk.inj hread
  have habs := congrArg (digitsValue 0) hdigits
  rw [digitsValue_digitsOf, digitsValue_digitsOf] at habs
  rw [decide_eq_decide] at hnegative
  omega

theorem isNumeric_of_mem_numberText {n : Number} (hn : Finite (.num n)) {c : Char}
    (h : c ∈ (numberText n).toList) :
    IsNumeric c := by
  cases hn with
  | int n =>
    rw [numberText, toList_toString_int] at h
    rcases List.mem_append.mp h with h | h
    · split at h
      · rw [List.mem_singleton.mp h]
        decide
      · cases h
    · exact isNumeric_of_mem_digitsOf h
  | float hfinite =>
    rw [numberText, if_pos hfinite, Layout.render, String.toList_ofList] at h
    exact Layout.isNumeric_of_mem_chars h

theorem numberText_ne_nil {n : Number} (hn : Finite (.num n)) : (numberText n).toList ≠ [] := by
  cases hn with
  | int n =>
    rw [numberText, toList_toString_int]
    exact fun h => digitsOf_ne_nil _ (List.append_eq_nil_iff.mp h).2
  | float hfinite =>
    rw [numberText, if_pos hfinite, Layout.render, String.toList_ofList]
    rcases Layout.exists_mark (l := numberLayout) rfl _ with h | h
    · exact List.ne_nil_of_mem h
    · exact List.ne_nil_of_mem h

/-- Integers are written without a fraction and without an exponent. -/
theorem toString_int_ne_chars (n : Int) (x : Binary64) : (toString n).toList ≠ numberLayout.chars x := by
  intro h
  have hdigit {c : Char} (hc : c ∈ numberLayout.chars x) : c = '-' ∨ c.isDigit = true := by
    rw [← h, toList_toString_int] at hc
    rcases List.mem_append.mp hc with hc | hc
    · split at hc
      · exact .inl (List.mem_singleton.mp hc)
      · cases hc
    · exact .inr (isDigit_of_mem_digitsOf hc)
  rcases Layout.exists_mark (l := numberLayout) rfl x with hmark | hmark
  · exact absurd (hdigit hmark) (by decide)
  · exact absurd (hdigit hmark) (by decide)

theorem numberText_inj {m n : Number} (hm : Finite (.num m)) (hn : Finite (.num n))
    (h : (numberText m).toList = (numberText n).toList) : m = n := by
  cases hm with
  | int m =>
    cases hn with
    | int n => exact congrArg Number.int (toString_int_inj h)
    | float hfinite =>
      rw [numberText, numberText, if_pos hfinite, Layout.render, String.toList_ofList] at h
      exact absurd h (toString_int_ne_chars _ _)
  | float hfinite =>
    cases hn with
    | int n =>
      rw [numberText, numberText, if_pos hfinite, Layout.render, String.toList_ofList] at h
      exact absurd h.symm (toString_int_ne_chars _ _)
    | float hfinite' =>
      rw [numberText, numberText, if_pos hfinite, if_pos hfinite', Layout.render, Layout.render,
        String.toList_ofList, String.toList_ofList] at h
      rw [Layout.chars_injective _ h]

def Ends (rest : List Char) : Prop := ∀ c ∈ rest.head?, ¬IsNumeric c

theorem ends_cons {c : Char} (h : ¬IsNumeric c) (rest : List Char) : Ends (c :: rest) := by
  rintro c' ⟨⟩
  exact h

section

variable {α : Type} {P : α → Prop} {f : α → List Char}

/-- The text of `a` can be told from that of any other value with the property `P`, and from what
follows it. -/
def Separable (P : α → Prop) (f : α → List Char) (a : α) : Prop :=
  ∀ b s t, P b → Ends s → Ends t → f a ++ s = f b ++ t → a = b ∧ s = t

/-- The texts of several values with commas between them, before a line break. -/
def separated (f : α → List Char) (as : List α) (rest : List Char) : List Char :=
  as.flatMap (fun a => ',' :: f a) ++ '\n' :: rest

theorem ends_separated (f : α → List Char) (as : List α) (rest : List Char) : Ends (separated f as rest) := by
  cases as with
  | nil => exact ends_cons (by decide) _
  | cons a as => exact ends_cons (by decide) _

/-- If values can be told apart, so can lists of them. -/
theorem Separable.separated {as bs : List α} (has : ∀ a ∈ as, Separable P f a) (hbs : ∀ b ∈ bs, P b)
    {s t : List Char} (h : separated f as s = separated f bs t) : as = bs ∧ s = t := by
  induction as generalizing bs with
  | nil =>
    cases bs with
    | nil => exact ⟨rfl, (List.cons.inj h).2⟩
    | cons b bs => exact absurd (List.cons.inj h).1 (by decide)
  | cons a as ih =>
    cases bs with
    | nil => exact absurd (List.cons.inj h).1 (by decide)
    | cons b bs =>
      have hfirst : f a ++ Json.separated f as s = f b ++ Json.separated f bs t := by
        simpa [Json.separated, List.append_assoc] using h
      obtain ⟨rfl, hrest⟩ := has a List.mem_cons_self b _ _ (hbs b List.mem_cons_self) (ends_separated f as s)
        (ends_separated f bs t) hfirst
      obtain ⟨rfl, hfollows⟩ := ih (fun a ha => has a (List.mem_cons_of_mem _ ha))
        (fun b hb => hbs b (List.mem_cons_of_mem _ hb)) hrest
      exact ⟨rfl, hfollows⟩

/-- If values can be told apart, so can lists of them between brackets, each value on lines of its own. -/
theorem Separable.bracketed (text : List α → List Char) {opening closing : Char} {indent : List Char}
    (hnil : text [] = [opening, closing])
    (hcons : ∀ a as, text (a :: as) = opening :: (f a ++ Json.separated f as (indent ++ [closing])))
    (hlines : ∀ a, (f a).head? = some '\n') (hclosing : closing ≠ '\n') {as bs : List α}
    (has : ∀ a ∈ as, Separable P f a) (hbs : ∀ b ∈ bs, P b) {s t : List Char}
    (h : text as ++ s = text bs ++ t) :
    as = bs ∧ s = t := by
  have hne (a : α) (as : List α) (s t : List Char) : text [] ++ s ≠ text (a :: as) ++ t := by
    intro heq
    rw [hnil, hcons] at heq
    have hsecond := congrArg List.head? (List.cons.inj heq).2
    cases hline : f a with
    | nil =>
      have := hlines a
      rw [hline] at this
      cases this
    | cons c cs =>
      have hfirst := hlines a
      rw [hline] at hsecond hfirst
      cases hfirst
      exact hclosing (Option.some.inj hsecond)
  cases as with
  | nil =>
    cases bs with
    | nil => exact ⟨rfl, List.append_cancel_left h⟩
    | cons b bs => exact absurd h (hne b bs s t)
  | cons a as =>
    cases bs with
    | nil => exact absurd h.symm (hne a as t s)
    | cons b bs =>
      rw [hcons, hcons] at h
      have hall : Json.separated f (a :: as) (indent ++ [closing] ++ s) =
          Json.separated f (b :: bs) (indent ++ [closing] ++ t) := by
        simpa [Json.separated] using h
      obtain ⟨heq, hfollows⟩ := Separable.separated has hbs hall
      exact ⟨heq, List.append_cancel_left hfollows⟩

theorem intercalate_cons (x : List Char) (xs : List (List Char)) :
    [','].intercalate (x :: xs) = x ++ xs.flatMap (fun y => ',' :: y) := by
  induction xs generalizing x with
  | nil => simp [List.intercalate]
  | cons y ys ih =>
    rw [List.intercalate_cons_cons, ih]
    simp

end

inductive Kind where
  | null
  | bool (b : Bool)
  | num
  | str
  | arr
  | obj

def kind : Json → Kind
  | .null => .null
  | .bool b => .bool b
  | .num _ => .num
  | .str _ => .str
  | .arr _ => .arr
  | .obj _ => .obj

def kindAt : Char → Kind
  | 'n' => .null
  | 't' => .bool true
  | 'f' => .bool false
  | '"' => .str
  | '[' => .arr
  | '\x7b' => .obj
  | _ => .num

theorem kindAt_of_isNumeric {c : Char} (h : IsNumeric c) : kindAt c = .num := by
  unfold kindAt
  split <;> first | rfl | exact absurd h (by decide)

def itemChars (level : Nat) (item : Json) : List Char := (lineBreak level ++ renderLines level item).toList

def memberChars (level : Nat) (m : String × Json) : List Char :=
  (lineBreak level ++ quoted m.1 ++ ": " ++ renderLines level m.2).toList

theorem renderItemLines_eq (level : Nat) (items : List Json) :
    (renderItemLines level items).map String.toList = items.map (itemChars level) := by
  induction items with
  | nil => simp [renderItemLines]
  | cons item items ih => simp [renderItemLines, ih, itemChars]

theorem renderMemberLines_eq (level : Nat) (members : List (String × Json)) :
    (renderMemberLines level members).map String.toList = members.map (memberChars level) := by
  induction members with
  | nil => simp [renderMemberLines]
  | cons m members ih => simp [renderMemberLines, ih, memberChars]

theorem toList_lineBreak (level : Nat) : (lineBreak level).toList = '\n' :: List.replicate (2 * level) ' ' :=
  String.toList_ofList

/-- The texts of several values between brackets. -/
theorem bracketed_eq {α : Type} {f : α → List Char} {texts : List String} {first : α} {others : List α}
    (htexts : texts.map String.toList = (first :: others).map f) (level : Nat) (opening closing : String) :
    (opening ++ ",".intercalate texts ++ lineBreak level ++ closing).toList =
      opening.toList ++ (f first ++ separated f others (List.replicate (2 * level) ' ' ++
        closing.toList)) := by
  rw [String.toList_append, String.toList_append, String.toList_append, String.toList_intercalate,
    htexts, List.map_cons, show ",".toList = [','] from rfl, intercalate_cons, toList_lineBreak,
    List.flatMap_map, separated]
  simp only [List.append_assoc, List.cons_append]

section

variable (level : Nat)

theorem toList_renderLines_num (n : Number) :
    (renderLines level (.num n)).toList = (numberText n).toList := by
  simp [renderLines, render]

theorem toList_renderLines_str (s : String) : (renderLines level (.str s)).toList = quotedChars s.toList := by
  simp [renderLines, render, toList_quoted]

theorem toList_renderLines_arr (item : Json) (items : List Json) :
    (renderLines level (.arr (item :: items))).toList = '[' :: (itemChars (level + 1) item ++
      separated (itemChars (level + 1)) items (List.replicate (2 * level) ' ' ++ [']'])) := by
  rw [renderLines, bracketed_eq (renderItemLines_eq (level + 1) (item :: items))]
  · simp
  · simp

theorem toList_renderLines_obj (m : String × Json) (members : List (String × Json)) :
    (renderLines level (.obj (m :: members))).toList = '\x7b' :: (memberChars (level + 1) m ++
      separated (memberChars (level + 1)) members (List.replicate (2 * level) ' ' ++ ['\x7d'])) := by
  rw [renderLines, bracketed_eq (renderMemberLines_eq (level + 1) (m :: members))]
  · simp
  · simp

end

theorem kindAt_head (level : Nat) {v : Json} (hv : Finite v) :
    ((renderLines level v).toList.head?).map kindAt = some v.kind := by
  have hnumber {n : Number} (hn : Finite (.num n)) :
      ((renderLines level (.num n)).toList.head?).map kindAt = some (Json.num n).kind := by
    rw [toList_renderLines_num]
    cases htext : (numberText n).toList with
    | nil => exact absurd htext (numberText_ne_nil hn)
    | cons c rest =>
      have hc := isNumeric_of_mem_numberText hn (c := c) (htext ▸ List.mem_cons_self)
      simp [kindAt_of_isNumeric hc, kind]
  cases hv with
  | null => simp [renderLines, render, kind, kindAt]
  | bool b => cases b <;> simp [renderLines, render, kind, kindAt]
  | int n => exact hnumber (.int n)
  | float hfinite => exact hnumber (.float hfinite)
  | str s =>
    rw [toList_renderLines_str]
    rfl
  | @arr items =>
    cases items with
    | nil => simp [renderLines, kind, kindAt]
    | cons item items =>
      rw [toList_renderLines_arr]
      rfl
  | @obj members =>
    cases members with
    | nil => simp [renderLines, kind, kindAt]
    | cons m members =>
      rw [toList_renderLines_obj]
      rfl

variable {level : Nat} {v w : Json} {s t : List Char}

theorem kind_eq (hv : Finite v) (hw : Finite w)
    (h : (renderLines level v).toList ++ s = (renderLines level w).toList ++ t) : v.kind = w.kind := by
  have hhead {u : Json} (hu : Finite u) (rest : List Char) :
      (((renderLines level u).toList ++ rest).head?).map kindAt = some u.kind := by
    have hkind := kindAt_head level hu
    cases htext : (renderLines level u).toList with
    | nil =>
      rw [htext] at hkind
      cases hkind
    | cons c cs =>
      rw [htext] at hkind
      exact hkind
  have hheads := congrArg (fun text => text.head?.map kindAt) h
  rw [hhead hv, hhead hw] at hheads
  exact Option.some.inj hheads

/-- A number goes on as long as there are characters of numbers. -/
theorem number_separable {m n : Number} (hm : Finite (.num m)) (hn : Finite (.num n)) (hs : Ends s)
    (ht : Ends t) (h : (numberText m).toList ++ s = (numberText n).toList ++ t) : m = n ∧ s = t := by
  have hsplit {n : Number} (hn : Finite (.num n)) {rest : List Char} (hrest : Ends rest) :
      ((numberText n).toList ++ rest).takeWhile (fun c => decide (IsNumeric c)) = (numberText n).toList ∧
        ((numberText n).toList ++ rest).dropWhile (fun c => decide (IsNumeric c)) = rest :=
    takeWhile_dropWhile_append (fun c hc => decide_eq_true (isNumeric_of_mem_numberText hn hc))
      (fun c hc => decide_eq_false (hrest c hc))
  have htake := (hsplit hm hs).1.symm.trans ((congrArg _ h).trans (hsplit hn ht).1)
  have hdrop := (hsplit hm hs).2.symm.trans ((congrArg _ h).trans (hsplit hn ht).2)
  exact ⟨numberText_inj hm hn htake, hdrop⟩

theorem separable_member {m : String × Json}
    (h : ∀ level, Separable Finite (fun v => (renderLines level v).toList) m.2) :
    Separable (fun m => Finite m.2) (memberChars level) m := by
  intro m' s t hm' hs ht heq
  unfold memberChars at heq
  simp only [String.toList_append, List.append_assoc, toList_quoted] at heq
  obtain ⟨hkey, hvalue⟩ := quotedChars_append_inj (List.append_cancel_left heq)
  obtain ⟨hvalue, hrest⟩ := h level m'.2 s t hm' hs ht (List.append_cancel_left hvalue)
  exact ⟨Prod.ext (String.toList_inj.mp hkey) hvalue, hrest⟩

theorem separable_item {item : Json}
    (h : ∀ level, Separable Finite (fun v => (renderLines level v).toList) item) :
    Separable Finite (itemChars level) item := by
  intro item' s t hitem' hs ht heq
  unfold itemChars at heq
  simp only [String.toList_append, List.append_assoc] at heq
  exact h level item' s t hitem' hs ht (List.append_cancel_left heq)

/-- Wherever its text stands, a value can be told from any other one and from what follows. -/
theorem Finite.separable (hv : Finite v) (level : Nat) :
    Separable Finite (fun v => (renderLines level v).toList) v := by
  have hnumber {n : Number} (hn : Finite (.num n)) {level : Nat} {w : Json} {s t : List Char} (hw : Finite w)
      (hs : Ends s) (ht : Ends t) (h : (renderLines level (.num n)).toList ++ s =
        (renderLines level w).toList ++ t) :
      .num n = w ∧ s = t := by
    have hkind := kind_eq hn hw h
    cases w with
    | num m =>
      rw [toList_renderLines_num, toList_renderLines_num] at h
      obtain ⟨rfl, hrest⟩ := number_separable hn hw hs ht h
      exact ⟨rfl, hrest⟩
    | _ => cases hkind
  induction hv generalizing level with
  | null =>
    intro w s t hw _ _ h
    have hkind := kind_eq .null hw h
    cases hw with
    | null => exact ⟨rfl, List.append_cancel_left h⟩
    | _ => cases hkind
  | bool b =>
    intro w s t hw _ _ h
    have hkind := kind_eq (.bool b) hw h
    cases hw with
    | bool b' =>
      cases hkind
      exact ⟨rfl, List.append_cancel_left h⟩
    | _ => cases hkind
  | int n =>
    intro w s t hw hs ht h
    exact hnumber (.int n) hw hs ht h
  | float hfinite =>
    intro w s t hw hs ht h
    exact hnumber (.float hfinite) hw hs ht h
  | str text =>
    intro w s t hw _ _ h
    have hkind := kind_eq (.str text) hw h
    cases hw with
    | str text' =>
      dsimp only at h
      rw [toList_renderLines_str, toList_renderLines_str] at h
      obtain ⟨htext, hrest⟩ := quotedChars_append_inj h
      exact ⟨congrArg Json.str (String.toList_inj.mp htext), hrest⟩
    | _ => cases hkind
  | @arr items hitems ih =>
    intro w s t hw hs ht h
    have hkind := kind_eq (.arr hitems) hw h
    cases hw with
    | @arr items' hitems' =>
      have hlists :=
        Separable.bracketed (fun items => (renderLines level (.arr items)).toList) (by simp [renderLines])
        (toList_renderLines_arr level) (by simp [itemChars, lineBreak]) (by decide)
        (fun item hitem => separable_item (ih item hitem)) hitems' h
      exact ⟨congrArg Json.arr hlists.1, hlists.2⟩
    | _ => cases hkind
  | @obj members hmembers ih =>
    intro w s t hw hs ht h
    have hkind := kind_eq (.obj hmembers) hw h
    cases hw with
    | @obj members' hmembers' =>
      have hlists := Separable.bracketed (fun members => (renderLines level (.obj members)).toList)
        (by simp [renderLines]) (toList_renderLines_obj level) (by simp [memberChars, lineBreak]) (by decide)
        (fun m hm => separable_member (ih m hm)) hmembers' h
      exact ⟨congrArg Json.obj hlists.1, hlists.2⟩
    | _ => cases hkind

/-- The indented text of a value determines it. -/
theorem pretty_inj (hv : Finite v) (hw : Finite w) (h : v.pretty = w.pretty) : v = w := by
  have htext : (renderLines 0 v).toList ++ [] = (renderLines 0 w).toList ++ [] := by
    rw [List.append_nil, List.append_nil]
    exact congrArg String.toList h
  exact (hv.separable 0 w [] [] hw (by rintro c ⟨⟩) (by rintro c ⟨⟩) htext).1

end ProviderSdk.Json
