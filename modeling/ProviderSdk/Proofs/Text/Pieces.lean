import Mathlib.Data.List.Forall2
import ProviderSdk.Text.Split

/-!
# Pieces of texts

The pieces of a text that is put together from others, at a separator or from pieces without one,
and the lines of a text that is put together from lines.
-/

namespace ProviderSdk.Text

theorem splitWhere_append (p : Char → Bool) (before : List Char) {sep : Char} (hsep : p sep = true)
    (after : List Char) :
    splitWhere p (before ++ sep :: after) = splitWhere p before ++ splitWhere p after := by
  induction before with
  | nil => simp [splitWhere, hsep]
  | cons c rest ih =>
    rw [List.cons_append, splitWhere, splitWhere, ih]
    split
    · rfl
    · cases h : splitWhere p rest with
      | nil => exact absurd h (splitWhere_ne_nil p rest)
      | cons piece pieces => rfl

theorem splitAt_append (sep : Char) (before after : List Char) :
    splitAt sep (before ++ sep :: after) = splitAt sep before ++ splitAt sep after :=
  splitWhere_append _ before (by simp) after

/-- The pieces one after the other are the text without what separates them. -/
theorem flatten_splitWhere (p : Char → Bool) (cs : List Char) :
    (splitWhere p cs).flatten = cs.filter (fun c => !p c) := by
  induction cs with
  | nil => rfl
  | cons c rest ih =>
    rw [splitWhere, List.filter_cons, ← ih]
    split
    · next hsep => simp [hsep]
    · next hsep =>
      cases h : splitWhere p rest with
      | nil => exact absurd h (splitWhere_ne_nil p rest)
      | cons piece pieces => simp [hsep]

theorem forall_not_of_mem_splitWhere {p : Char → Bool} {cs piece : List Char} (h : piece ∈ splitWhere p cs) :
    ∀ c ∈ piece, p c = false := by
  intro c hc
  have hflat : c ∈ (splitWhere p cs).flatten := List.mem_flatten.mpr ⟨piece, h, hc⟩
  rw [flatten_splitWhere] at hflat
  simpa using (List.mem_filter.mp hflat).2

theorem length_splitAt (sep : Char) (cs : List Char) : (splitAt sep cs).length = cs.count sep + 1 := by
  unfold splitAt
  induction cs with
  | nil => rfl
  | cons c rest ih =>
    rw [splitWhere, List.count_cons]
    split
    · simp [ih]
    · cases h : splitWhere (· == sep) rest with
      | nil => exact absurd h (splitWhere_ne_nil _ rest)
      | cons piece pieces => simp_all

theorem split_append (sep : Char) (before after : String) :
    split sep (before ++ String.singleton sep ++ after) = split sep before ++ split sep after := by
  simp [split, splitAt, splitWhere_append]

/-- Separators at the end of a text give empty pieces. -/
theorem splitWhere_append_of_forall (p : Char → Bool) (before : List Char) {seps : List Char}
    (hseps : ∀ c ∈ seps, p c = true) :
    splitWhere p (before ++ seps) = splitWhere p before ++ List.replicate seps.length [] := by
  induction seps generalizing before with
  | nil => simp
  | cons sep rest ih =>
    obtain ⟨hsep, hrest⟩ := List.forall_mem_cons.mp hseps
    rw [splitWhere_append p before hsep, ← List.nil_append rest, ih [] hrest]
    rfl

/-- A text without separators is one piece. -/
theorem splitWhere_of_forall {p : Char → Bool} {cs : List Char} (h : ∀ c ∈ cs, p c = false) :
    splitWhere p cs = [cs] := by
  induction cs with
  | nil => rfl
  | cons c rest ih =>
    obtain ⟨hc, hrest⟩ := List.forall_mem_cons.mp h
    rw [splitWhere, if_neg (by simp [hc]), ih hrest]

theorem splitAt_of_not_mem {sep : Char} {cs : List Char} (h : sep ∉ cs) : splitAt sep cs = [cs] :=
  splitWhere_of_forall (fun _ hc => beq_eq_false_iff_ne.mpr (fun heq => h (heq ▸ hc)))

theorem joinWith_cons_of_ne_nil (sep piece : List Char) {pieces : List (List Char)} (h : pieces ≠ []) :
    joinWith sep (piece :: pieces) = piece ++ sep ++ joinWith sep pieces := by
  obtain ⟨second, rest, rfl⟩ := List.exists_cons_of_ne_nil h
  rfl

/-- The pieces of a text are the only ones without the separator that make it when they are joined. -/
theorem splitAt_eq_iff {sep : Char} {cs : List Char} {pieces : List (List Char)} :
    splitAt sep cs = pieces ↔ pieces ≠ [] ∧ (∀ piece ∈ pieces, sep ∉ piece) ∧ joinWith [sep] pieces = cs := by
  constructor
  · rintro rfl
    exact ⟨splitWhere_ne_nil _ cs, fun piece hpiece => not_mem_of_mem_splitAt hpiece, joinWith_splitAt sep cs⟩
  · rintro ⟨hne, hpieces, rfl⟩
    induction pieces with
    | nil => exact absurd rfl hne
    | cons first rest ih =>
      obtain ⟨hfirst, hrest⟩ := List.forall_mem_cons.mp hpieces
      cases rest with
      | nil => exact splitAt_of_not_mem hfirst
      | cons second rest =>
        rw [joinWith_cons_of_ne_nil _ _ (List.cons_ne_nil _ _), List.append_assoc,
          List.singleton_append, splitAt_append, splitAt_of_not_mem hfirst, ih (List.cons_ne_nil _ _) hrest,
          List.singleton_append]

theorem splitWhere_congr {p q : Char → Bool} {cs : List Char} (h : ∀ c ∈ cs, p c = q c) :
    splitWhere p cs = splitWhere q cs := by
  induction cs with
  | nil => rfl
  | cons c rest ih =>
    obtain ⟨hc, hrest⟩ := List.forall_mem_cons.mp h
    rw [splitWhere, splitWhere, hc, ih hrest]

theorem split_of_not_mem {sep : Char} {s : String} (h : sep ∉ s.toList) : split sep s = [s] := by
  rw [split, splitAt_of_not_mem h]
  simp

theorem not_mem_of_mem_split {sep : Char} {s piece : String} (h : piece ∈ split sep s) :
    sep ∉ piece.toList := by
  obtain ⟨cs, hcs, rfl⟩ := List.mem_map.mp h
  rw [String.toList_ofList]
  exact not_mem_of_mem_splitAt hcs

/-- Pieces that do not hold the separator come back from the text in which it stands between them. -/
theorem split_intercalate {sep : Char} {pieces : List String} (hne : pieces ≠ [])
    (h : ∀ piece ∈ pieces, sep ∉ piece.toList) :
    split sep ((String.singleton sep).intercalate pieces) = pieces := by
  induction pieces with
  | nil => exact absurd rfl hne
  | cons first rest ih =>
    obtain ⟨hfirst, hrest⟩ := List.forall_mem_cons.mp h
    cases rest with
    | nil => simpa using split_of_not_mem hfirst
    | cons second rest =>
      rw [String.intercalate_cons_cons, split_append, split_of_not_mem hfirst, ih (by simp) hrest]
      rfl

theorem splitAt_intercalate {pieces : List String} (hne : pieces ≠ [])
    (h : ∀ piece ∈ pieces, '\n' ∉ piece.toList) :
    splitAt '\n' ("\n".intercalate pieces).toList = pieces.map String.toList := by
  have hpieces := congrArg (List.map String.toList) (split_intercalate hne h)
  rw [split, List.map_map] at hpieces
  exact (List.map_id'' (fun cs => String.toList_ofList) _).symm.trans hpieces

theorem afterStart?_append (start cs : List Char) : afterStart? start (start ++ cs) = some cs := by
  induction start with
  | nil => rfl
  | cons c rest ih => rw [List.cons_append, afterStart?, if_pos rfl, ih]

theorem afterStart?_eq_some {start cs rest : List Char} :
    afterStart? start cs = some rest ↔ cs = start ++ rest := by
  constructor
  · intro h
    fun_induction afterStart? start cs with
    | case1 cs => simpa using h
    | case2 => cases h
    | case3 _ _ _ ih => rw [List.cons_append, ih h]
    | case4 => cases h
  · rintro rfl
    exact afterStart?_append start rest

theorem afterStart?_eq_none_iff {start cs : List Char} : afterStart? start cs = none ↔ ¬ start <+: cs := by
  rw [Option.eq_none_iff_forall_ne_some]
  simp only [ne_eq, afterStart?_eq_some]
  exact ⟨fun h ⟨rest, heq⟩ => h rest heq.symm, fun h rest heq => h ⟨rest, heq.symm⟩⟩

theorem dropStart?_eq_some {start s rest : String} : dropStart? start s = some rest ↔ s = start ++ rest := by
  rw [dropStart?, Option.map_eq_some_iff]
  constructor
  · rintro ⟨cs, hcs, rfl⟩
    rw [← String.toList_inj, afterStart?_eq_some.mp hcs, String.toList_append, String.toList_ofList]
  · rintro rfl
    exact ⟨rest.toList, afterStart?_eq_some.mpr String.toList_append, String.ofList_toList⟩

theorem beforeEnd?_append (cs suffix : List Char) : beforeEnd? suffix (cs ++ suffix) = some cs := by
  rw [beforeEnd?, List.reverse_append, afterStart?_append, Option.map_some, List.reverse_reverse]

theorem beforeEnd?_eq_some {suffix cs before : List Char} :
    beforeEnd? suffix cs = some before ↔ cs = before ++ suffix := by
  constructor
  · intro h
    obtain ⟨rest, hrest, rfl⟩ := Option.map_eq_some_iff.mp h
    have heq := congrArg List.reverse (afterStart?_eq_some.mp hrest)
    rwa [List.reverse_reverse, List.reverse_append, List.reverse_reverse] at heq
  · rintro rfl
    exact beforeEnd?_append before suffix

theorem beforeEnd?_eq_none {suffix cs : List Char} (h : cs.getLast? ≠ suffix.getLast?) (hne : suffix ≠ []) :
    beforeEnd? suffix cs = none := by
  rw [List.getLast?_eq_head?_reverse, List.getLast?_eq_head?_reverse] at h
  rw [beforeEnd?]
  obtain ⟨last, rest, hsuffix⟩ := List.exists_cons_of_ne_nil (List.reverse_ne_nil_iff.mpr hne)
  rw [hsuffix] at h ⊢
  cases hchars : cs.reverse with
  | nil => rfl
  | cons c before =>
    rw [hchars] at h
    have hlast : ¬ last = c := fun heq => h (by rw [heq]; rfl)
    rw [afterStart?, if_neg hlast, Option.map_none]

theorem cutAt?_append {p : Char → Bool} {before : List Char} (hbefore : ∀ c ∈ before, p c = false)
    {sep : Char} (hsep : p sep = true) (after : List Char) :
    cutAt? p (before ++ sep :: after) = some (before, after) := by
  induction before with
  | nil => rw [List.nil_append, cutAt?, if_pos hsep]
  | cons c rest ih =>
    obtain ⟨hc, hrest⟩ := List.forall_mem_cons.mp hbefore
    rw [List.cons_append, cutAt?, if_neg (by simp [hc]), ih hrest, Option.map_some]

theorem cutAt?_eq_none_iff {p : Char → Bool} {cs : List Char} :
    cutAt? p cs = none ↔ ∀ c ∈ cs, p c = false := by
  induction cs with
  | nil => simp [cutAt?]
  | cons c rest ih =>
    rw [cutAt?]
    split
    · next hc => simp [hc]
    · next hc => simp [hc, ih]

theorem cutAt?_eq_some_iff {p : Char → Bool} {cs before after : List Char} :
    cutAt? p cs = some (before, after) ↔
      ∃ sep, cs = before ++ sep :: after ∧ p sep = true ∧ ∀ c ∈ before, p c = false := by
  constructor
  · intro h
    induction cs generalizing before with
    | nil => cases h
    | cons c rest ih =>
      rw [cutAt?] at h
      split at h
      · next hc =>
        cases h
        exact ⟨c, rfl, hc, by simp⟩
      · next hc =>
        obtain ⟨⟨before', after'⟩, hcut, heq⟩ := Option.map_eq_some_iff.mp h
        cases heq
        obtain ⟨sep, rfl, hsep, hbefore⟩ := ih hcut
        exact ⟨sep, rfl, hsep, List.forall_mem_cons.mpr ⟨by simpa using hc, hbefore⟩⟩
  · rintro ⟨sep, rfl, hsep, hbefore⟩
    exact cutAt?_append hbefore hsep after

theorem mem_replacedFrom {old new cs : List Char} {skip : Nat} {c : Char}
    (h : c ∈ replacedFrom old new skip cs) :
    c ∈ new ∨ c ∈ cs := by
  induction cs generalizing skip with
  | nil => simp [replacedFrom] at h
  | cons first rest ih =>
    have hrest {skip : Nat} (h : c ∈ replacedFrom old new skip rest) : c ∈ new ∨ c ∈ first :: rest :=
      (ih h).imp_right (List.mem_cons_of_mem _)
    cases skip with
    | succ skip => exact hrest h
    | zero =>
      rw [replacedFrom] at h
      split at h
      · obtain h | h := List.mem_append.mp h
        · exact .inl h
        · exact hrest h
      · obtain rfl | h := List.mem_cons.mp h
        · exact .inr List.mem_cons_self
        · exact hrest h

/-- A text in which parts are replaced holds characters of the text and of what stands in their place. -/
theorem mem_replaced {old new cs : List Char} {c : Char} (h : c ∈ replaced old new cs) : c ∈ new ∨ c ∈ cs :=
  mem_replacedFrom h

theorem replacedFrom_append (old new skipped rest : List Char) :
    replacedFrom old new skipped.length (skipped ++ rest) = replaced old new rest := by
  induction skipped with
  | nil => rfl
  | cons c skipped ih => exact ih

theorem replaced_append {old : List Char} (hne : old ≠ []) (new rest : List Char) :
    replaced old new (old ++ rest) = new ++ replaced old new rest := by
  obtain ⟨c, tail, rfl⟩ := List.exists_cons_of_ne_nil hne
  have hbegins : (c :: tail).isPrefixOf (c :: (tail ++ rest)) = true := by
    rw [List.isPrefixOf_iff_prefix]
    exact List.prefix_append (c :: tail) rest
  rw [replaced, List.cons_append, replacedFrom, if_pos (by simp [hbegins])]
  exact congrArg (new ++ ·) (replacedFrom_append _ _ tail rest)

theorem replaced_cons {old : List Char} {c : Char} {rest : List Char} (h : ¬ old <+: c :: rest)
    (new : List Char) :
    replaced old new (c :: rest) = c :: replaced old new rest := by
  rw [← List.isPrefixOf_iff_prefix] at h
  rw [replaced, replacedFrom, if_neg (by simp [h])]
  rfl

/-- Induction over a text and what it becomes when a part is replaced wherever it stands. -/
theorem replaced_induction {old new : List Char} (hne : old ≠ []) {motive : List Char → List Char → Prop}
    (nil : motive [] [])
    (hit : ∀ rest, motive rest (replaced old new rest) → motive (old ++ rest) (new ++ replaced old new rest))
    (cons : ∀ c rest, ¬ old <+: c :: rest → motive rest (replaced old new rest) →
      motive (c :: rest) (c :: replaced old new rest)) (cs : List Char) :
        motive cs (replaced old new cs) := by
  -- On the length, for all characters of the part are passed at once.
  induction hlength : cs.length using Nat.strongRecOn generalizing cs with
  | ind n ih =>
    subst hlength
    cases cs with
    | nil => exact nil
    | cons c rest =>
      by_cases h : old <+: c :: rest
      · obtain ⟨more, hmore⟩ := h
        rw [← hmore, replaced_append hne]
        refine hit more (ih _ ?_ more rfl)
        rw [← hmore, List.length_append]
        exact Nat.lt_add_of_pos_left (List.length_pos_iff.mpr hne)
      · rw [replaced_cons h]
        exact cons c rest h (ih _ (by simp) rest rfl)

/-- A text that has been read up to its end, and what follows it, with some characters in front of
the text. -/
def heldBehind (front : List Char) (read : Option (List Char × List Char)) : Option (List Char × List Char) :=
  read.map (fun (held, after) => (front ++ held, after))

@[simp] theorem heldBehind_nil (read : Option (List Char × List Char)) : heldBehind [] read = read := by
  cases read <;> rfl

@[simp] theorem heldBehind_heldBehind (cs ds : List Char) (read : Option (List Char × List Char)) :
    heldBehind cs (heldBehind ds read) = heldBehind (cs ++ ds) read := by
  cases read <;> simp [heldBehind]

/-- Lines that are ended come back from the text that they make, with what follows them. -/
theorem splitAt_join_append {ls : List String} (h : ∀ l ∈ ls, '\n' ∉ l.toList) (rest : String) :
    splitAt '\n' (String.join (ls.map (fun l => l ++ "\n")) ++ rest).toList =
      ls.map String.toList ++ splitAt '\n' rest.toList := by
  induction ls with
  | nil => rfl
  | cons l ls ih =>
    obtain ⟨hl, hrest⟩ := List.forall_mem_cons.mp h
    have hchars : (String.join ((l :: ls).map (fun l => l ++ "\n")) ++ rest).toList =
        l.toList ++ '\n' :: (String.join (ls.map (fun l => l ++ "\n")) ++ rest).toList := by
      simp
    rw [hchars, splitAt_append, splitAt_of_not_mem hl, ih hrest]
    rfl

theorem withoutReturn_eq {line : List Char} (h : line.getLast? ≠ some '\r') : withoutReturn line = line := by
  rw [withoutReturn, beforeEnd?_eq_none h (List.cons_ne_nil _ _), Option.getD_none]

theorem unsnoc_concat {α : Type} (front : List α) (last : α) :
    unsnoc (front ++ [last]) = some (front, last) := by
  induction front with
  | nil => rfl
  | cons a front ih =>
    rw [List.cons_append, unsnoc, ih]
    · rfl
    · simp

/-- A line that is read is the line that was written, or that line without a carriage return at its end. -/
def ReadFrom (line read : List Char) : Prop := read = line ∨ line = read ++ ['\r']

theorem readFrom_withoutReturn (line : List Char) : ReadFrom line (withoutReturn line) := by
  by_cases h : line.getLast? = some '\r'
  · obtain ⟨front, rfl⟩ := List.getLast?_eq_some_iff.mp h
    right
    rw [withoutReturn, beforeEnd?_append, Option.getD_some]
  · exact .inl (withoutReturn_eq h)

theorem forall₂_withoutReturn (lines : List (List Char)) :
    List.Forall₂ ReadFrom lines (lines.map withoutReturn) :=
  List.forall₂_map_right_iff.mpr (List.forall₂_same.mpr (fun line _ => readFrom_withoutReturn line))

/-- The lines of a text that is put together from lines. The last one may be ended as well. -/
theorem forall₂_textLines {front : List String} {last : String}
    (hlines : ∀ l ∈ front ++ [last], '\n' ∉ l.toList) (hne : last ≠ "") (ended : Bool) :
    List.Forall₂ ReadFrom ((front ++ [last]).map String.toList)
      (textLines ("\n".intercalate (front ++ [last]) ++ (if ended then "\n" else "")).toList) := by
  have hsplit := splitAt_intercalate (List.concat_ne_nil last front) hlines
  cases ended with
  | true =>
    have hpieces : splitAt '\n' ("\n".intercalate (front ++ [last]) ++ "\n").toList =
        (front ++ [last]).map String.toList ++ [[]] := by
      rw [String.toList_append, ← hsplit]
      exact splitAt_append '\n' _ []
    rw [if_pos rfl, textLines, hpieces, unsnoc_concat]
    simpa using forall₂_withoutReturn ((front ++ [last]).map String.toList)
  | false =>
    rw [if_neg Bool.false_ne_true, String.append_empty, textLines, hsplit, List.map_append,
      List.map_singleton, unsnoc_concat]
    change List.Forall₂ _ _ (_ ++ if last.toList.isEmpty then [] else [last.toList])
    rw [if_neg (by simpa using hne)]
    exact List.rel_append (forall₂_withoutReturn _) (.cons (.inl rfl) .nil)

end ProviderSdk.Text
