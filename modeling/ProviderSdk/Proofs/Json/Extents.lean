import ProviderSdk.Proofs.Json.Tokens

/-!
# How far readers of values read

Whatever reads or skips a value has read over that one value, with the separators before it.
-/

namespace ProviderSdk.Json.Reader

variable {α β : Type}

/-- One value has been read over, with the separators before it, and what has been read goes with
how it is laid out. -/
def Covers (P : α → Layout → Prop) (cs : List Char) (a : α) (rest : List Char) : Prop :=
  ∃ gap l, IsGap gap ∧ l.WellFormed ∧ cs = gap ++ (l.chars ++ rest) ∧ P a l

def Reads (P : α → Layout → Prop) (r : Reader α) : Prop := ∀ cs, Leaves r cs (Covers P cs)

def ReadsValue (r : Reader α) : Prop := Reads (fun _ _ => True) r

section

variable {r : Reader α} {P : α → Layout → Prop} {Q : β → Layout → Prop} {cs gap rest : List Char}

theorem Reads.image {f : α → β} (h : Reads P r) (hf : ∀ a l, P a l → Q (f a) l) : Reads Q (f <$> r) :=
  fun cs => (h cs).image (fun a _ ⟨gap, l, hgap, hl, hcs, hP⟩ => ⟨gap, l, hgap, hl, hcs, hf a l hP⟩)

theorem Reads.imp {P' : α → Layout → Prop} (h : Reads P r) (himp : ∀ a l, P a l → P' a l) : Reads P' r :=
  fun cs => (h cs).imp (fun a _ ⟨gap, l, hgap, hl, hcs, hP⟩ => ⟨gap, l, hgap, hl, hcs, himp a l hP⟩)

theorem Reads.readsValue (h : Reads P r) : ReadsValue r := h.imp (fun _ _ _ => trivial)

theorem ReadsValue.image (f : α → β) (h : ReadsValue r) : ReadsValue (f <$> r) :=
  Reads.image h (fun _ _ h => h)

theorem reads_refuseHere : Reads P refuseHere := fun _ => leaves_refuseHere

/-- A value is read behind separators that have been read over. -/
theorem Reads.behind (h : Reads P r) (hgap : IsGap gap) : Leaves r rest (Covers P (gap ++ rest)) :=
  (h rest).imp (fun a left ⟨gap', l, hgap', hl, hcs, hP⟩ =>
    ⟨gap ++ gap', l, hgap.append hgap', hl, by simp [hcs], hP⟩)

theorem covers_token {chars : List Char} {a : α} (hgap : IsGap gap) (hchars : IsToken chars)
    (hP : P a (.scalar chars)) : Covers P (gap ++ (chars ++ rest)) a rest :=
  ⟨gap, .scalar chars, hgap, by rwa [Layout.WellFormed], by rw [Layout.chars], hP⟩

theorem isToken_null : IsToken ('n' :: "ull".toList) :=
  .word (List.cons_ne_nil _ _) (by simp [isMark, Cursor.isSeparator])

theorem isToken_true : IsToken ('t' :: "rue".toList) :=
  .word (List.cons_ne_nil _ _) (by simp [isMark, Cursor.isSeparator])

theorem isToken_false : IsToken ('f' :: "alse".toList) :=
  .word (List.cons_ne_nil _ _) (by simp [isMark, Cursor.isSeparator])

theorem Numeral.exists_token (h : Numeral cs rest) : ∃ chars, IsToken chars ∧ cs = chars ++ rest := by
  obtain ⟨c, between, hc, rfl, numerals, hnumerals, rfl⟩ := h
  refine ⟨c :: numerals, .word (List.cons_ne_nil c numerals) (List.forall_mem_cons.mpr ⟨?_, ?_⟩), rfl⟩
  · exact isMark_of_isNumeral hc
  · exact fun c hc => isMark_of_isNumeral (hnumerals c hc)

theorem Numeral.signed (h : Numeral cs rest) : Numeral ('-' :: cs) rest := ⟨'-', cs, rfl, rfl, h.numerals⟩

/-- A word is read over behind its first letter. -/
theorem leaves_rest_of_word {letter : Char} {word : List Char} {a : α} (hgap : IsGap gap)
    (hword : IsToken (letter :: word)) (hP : P a (.scalar (letter :: word))) :
    Leaves (do Reader.word word; pure a) rest (Covers P (gap ++ letter :: rest)) := by
  refine (leaves_word word rest).bind (fun _ left hleft => leaves_pure ?_)
  rw [hleft, ← List.cons_append]
  exact covers_token hgap hword hP

theorem leaves_rest_of_string {f : String → α} (hgap : IsGap gap) (hP : ∀ s chars, P (f s) (.scalar chars)) :
    Leaves (f <$> stringBody) rest (Covers P (gap ++ '"' :: rest)) := by
  refine (leaves_stringBody rest).image ?_
  rintro s left ⟨spelling, hspelling, rfl, -⟩
  have hcover : Covers P (gap ++ ('"' :: (spelling ++ ['"']) ++ left)) (f s) left :=
    covers_token hgap (.string hspelling) (hP s _)
  simpa using hcover

theorem readsValue_text : ReadsValue text := by
  intro cs
  refine leaves_peekToken? (fun gap rest ahead hgap hcs hahead => ?_)
  rw [hcs]
  split
  · exact leaves_refuseAhead
  · obtain ⟨rest, rfl⟩ := List.head?_eq_some_iff.mp hahead
    refine leaves_advance ?_
    rw [← id_map stringBody]
    exact leaves_rest_of_string hgap (fun _ _ => trivial)
  · exact leaves_refuseValue

theorem readsValue_bool : ReadsValue bool := by
  intro cs
  refine leaves_peekToken? (fun gap rest ahead hgap hcs hahead => ?_)
  rw [hcs]
  split
  · exact leaves_refuseAhead
  · obtain ⟨rest, rfl⟩ := List.head?_eq_some_iff.mp hahead
    exact leaves_advance (leaves_rest_of_word hgap isToken_true trivial)
  · obtain ⟨rest, rfl⟩ := List.head?_eq_some_iff.mp hahead
    exact leaves_advance (leaves_rest_of_word hgap isToken_false trivial)
  · exact leaves_refuseValue

def natOf (bound : Nat) : Number → Reader Nat
  | .int n => if 0 ≤ n ∧ n < bound then pure n.toNat else mismatch
  | .float _ => mismatch

/-- Whether a number is taken is seen from the number alone. -/
theorem leaves_natOf (bound : Nat) (n : Number) (cs : List Char) :
    Leaves (natOf bound n) cs (fun _ rest => rest = cs) := by
  unfold natOf
  split
  · split
    · exact leaves_pure rfl
    · exact leaves_mismatch
  · exact leaves_mismatch

theorem readsValue_natBelow (bound : Nat) : ReadsValue (natBelow bound) := by
  intro cs
  refine leaves_peekToken? (fun gap rest ahead hgap hcs hahead => ?_)
  rw [hcs]
  split
  · exact leaves_refuseAhead
  · obtain ⟨rest, rfl⟩ := List.head?_eq_some_iff.mp hahead
    refine leaves_advance (Leaves.bind (readsNumeral_numberBody true rest) (fun n left hnumeral => ?_))
    obtain ⟨chars, hchars, heq⟩ := hnumeral.signed.exists_token
    refine (leaves_natOf bound n left).imp ?_
    rintro a _ rfl
    rw [heq]
    exact covers_token hgap hchars trivial
  · split
    · refine Leaves.bind (readsNumeral_numberBody false rest) (fun n left hnumeral => ?_)
      obtain ⟨chars, hchars, heq⟩ := hnumeral.exists_token
      refine (leaves_natOf bound n left).imp ?_
      rintro a _ rfl
      rw [heq]
      exact covers_token hgap hchars trivial
    · exact leaves_refuseValue

theorem Reads.option {read : Reader α} (h : Reads P read) :
    Reads (fun value l => ∀ a, value = some a → P a l) (option read) := by
  intro cs
  refine leaves_peekToken? (fun gap rest ahead hgap hcs hahead => ?_)
  rw [hcs]
  split
  · obtain ⟨rest, rfl⟩ := List.head?_eq_some_iff.mp hahead
    exact leaves_advance (leaves_rest_of_word hgap isToken_null (by simp))
  · refine (h.behind hgap).image ?_
    rintro a left ⟨gap', l, hgap', hl, heq, hP⟩
    refine ⟨gap', l, hgap', hl, heq, ?_⟩
    intro a' ha'
    cases ha'
    exact hP

end

/-- What stands before a further item or member has been read over, or what stands before the
closing bracket. -/
def Joins (bracket : Char) (isFirst : Bool) (cs : List Char) (more : Bool) (rest : List Char) : Prop :=
  ∃ joint, cs = joint ++ rest ∧ if more = true then IsJoint isFirst joint
    else IsGap joint ∧ ∃ left, rest = bracket :: left

theorem joins_closing {bracket : Char} {isFirst : Bool} {gap rest : List Char} (hgap : IsGap gap) :
    Joins bracket isFirst (gap ++ bracket :: rest) false (bracket :: rest) :=
  ⟨gap, rfl, hgap, rest, rfl⟩

theorem joins_first {bracket : Char} {gap rest : List Char} (hgap : IsGap gap) :
    Joins bracket true (gap ++ rest) true rest :=
  ⟨gap, rfl, hgap⟩

theorem joins_comma {bracket : Char} {gap gap' rest : List Char} (hgap : IsGap gap) (hgap' : IsGap gap') :
    Joins bracket false (gap ++ ',' :: (gap' ++ rest)) true rest :=
  ⟨gap ++ ',' :: gap', by simp, gap, gap', hgap, hgap', rfl⟩

theorem leaves_moreItems (isFirst : Bool) (cs : List Char) :
    Leaves (moreItems isFirst) cs (Joins ']' isFirst cs) := by
  refine leaves_peekToken? (fun gap rest ahead hgap hcs hahead => ?_)
  rw [hcs]
  split
  · exact leaves_refuseAhead
  · obtain ⟨rest, rfl⟩ := List.head?_eq_some_iff.mp hahead
    exact leaves_pure (joins_closing hgap)
  · obtain ⟨rest, rfl⟩ := List.head?_eq_some_iff.mp hahead
    cases isFirst with
    | true => exact leaves_pure (joins_first hgap)
    | false =>
      refine leaves_advance (leaves_peekToken? (fun gap' rest' ahead' hgap' hrest _ => ?_))
      rw [hrest]
      split
      · exact leaves_refuseAhead
      · exact leaves_pure (joins_comma hgap hgap')
      · exact leaves_refuseAhead
  · cases isFirst with
    | true => exact leaves_pure (joins_first hgap)
    | false => exact leaves_refuseAhead

/-- If a further member follows, its key is ahead. -/
theorem leaves_moreMembers (isFirst : Bool) (cs : List Char) : Leaves (moreMembers isFirst) cs
    (fun more rest => Joins '\x7d' isFirst cs more rest ∧ (more = true → ∃ left, rest = '"' :: left)) := by
  refine leaves_peekToken? (fun gap rest ahead hgap hcs hahead => ?_)
  rw [hcs]
  split
  · exact leaves_refuseAhead
  · obtain ⟨rest, rfl⟩ := List.head?_eq_some_iff.mp hahead
    exact leaves_pure ⟨joins_closing hgap, by simp⟩
  · obtain ⟨rest, rfl⟩ := List.head?_eq_some_iff.mp hahead
    cases isFirst with
    | true => exact leaves_refuseAhead
    | false =>
      refine leaves_advance (leaves_peekToken? (fun gap' rest' ahead' hgap' hrest hahead' => ?_))
      rw [hrest]
      split
      · obtain ⟨left, rfl⟩ := List.head?_eq_some_iff.mp hahead'
        exact leaves_pure ⟨joins_comma hgap hgap', fun _ => ⟨left, rfl⟩⟩
      · exact leaves_refuseAhead
  · split
    · next hkey =>
      obtain ⟨rfl, rfl⟩ := hkey
      obtain ⟨left, rfl⟩ := List.head?_eq_some_iff.mp hahead
      exact leaves_pure ⟨joins_first hgap, fun _ => ⟨left, rfl⟩⟩
    · exact leaves_refuseAhead

theorem leaves_key (rest : List Char) : Leaves key ('"' :: rest) (fun k left => ∃ spelt : String,
    IsSpelling spelt.toList ∧ '"' :: rest = quotedKey spelt ++ left ∧ (IsPlainKey spelt → k = spelt)) := by
  refine leaves_advance ((leaves_stringBody rest).imp ?_)
  rintro k left ⟨spelling, hspelling, rfl, hk⟩
  refine ⟨String.ofList spelling, by simpa using hspelling, by simp [quotedKey],
    fun hplain => hk (fun hmem => ?_)⟩
  exact (hplain '\\' (by simpa using hmem)).2.2 rfl

theorem leaves_colon (cs : List Char) :
    Leaves colon cs (fun _ rest => ∃ gap, IsGap gap ∧ cs = gap ++ ':' :: rest) := by
  refine leaves_peekToken? (fun gap rest ahead hgap hcs hahead => ?_)
  split
  · obtain ⟨rest, rfl⟩ := List.head?_eq_some_iff.mp hahead
    exact leaves_last_advance ⟨gap, hgap, hcs⟩
  · exact leaves_refuseAhead

/-- The values that have been read go with the layouts of members with the same keys. -/
def Shows (P : α → Layout → Prop) : List (String × α) → MemberLayouts → Prop
  | [], .nil => True
  | (k, a) :: rest, .cons _ key _ value others => k = key ∧ P a value ∧ Shows P rest others
  | _, _ => False

section

variable {read : Reader α} {P : α → Layout → Prop}

theorem Reads.itemsLoop (h : Reads P read) (fuel : Nat) (isFirst : Bool) (cs : List Char) :
    Leaves (itemsLoop read fuel isFirst) cs (fun _ rest => ∃ items closing,
      ItemLayouts.WellFormed isFirst items ∧ IsGap closing ∧
        cs = items.chars ++ (closing ++ ']' :: rest)) := by
  induction fuel generalizing isFirst cs with
  | zero => exact leaves_refuseHere
  | succ fuel ih =>
    refine (leaves_moreItems isFirst cs).bind (fun more rest => ?_)
    rintro ⟨joint, rfl, hjoint⟩
    split at hjoint
    · next hmore =>
      rw [if_pos hmore]
      refine (h rest).bind (fun a rest => ?_)
      rintro ⟨gap, l, hgap, hl, rfl, -⟩
      refine (ih false rest).bind (fun as rest => ?_)
      rintro ⟨items, closing, hitems, hclosing, rfl⟩
      refine leaves_pure ⟨.cons (joint ++ gap) l items, closing, ?_, hclosing, by simp [ItemLayouts.chars]⟩
      exact ⟨hjoint.append_gap hgap, hl, hitems⟩
    · next hmore =>
      rw [if_neg hmore]
      obtain ⟨hclosing, left, rfl⟩ := hjoint
      exact leaves_leave (leaves_pure ⟨.nil, joint, trivial, hclosing, rfl⟩)

theorem Reads.membersLoop (h : Reads P read) (fuel : Nat) (isFirst : Bool) (cs : List Char) :
    Leaves (membersLoop read fuel isFirst) cs (fun as rest => ∃ members closing,
      MemberLayouts.WellFormed isFirst members ∧ IsGap closing ∧
        cs = members.chars ++ (closing ++ '\x7d' :: rest) ∧
      (members.PlainKeys → Shows P as members)) := by
  induction fuel generalizing isFirst cs with
  | zero => exact leaves_refuseHere
  | succ fuel ih =>
    refine (leaves_moreMembers isFirst cs).bind (fun more rest => ?_)
    rintro ⟨⟨joint, rfl, hjoint⟩, hahead⟩
    split at hjoint
    · next hmore =>
      rw [if_pos hmore]
      obtain ⟨left, rfl⟩ := hahead hmore
      refine (leaves_key left).bind (fun k rest => ?_)
      rintro ⟨spelt, hspelt, hkey, hk⟩
      refine (leaves_colon rest).bind (fun _ rest => ?_)
      rintro ⟨gap, hgap, rfl⟩
      refine (h rest).bind (fun a rest => ?_)
      rintro ⟨gap', l, hgap', hl, rfl, ha⟩
      refine (ih false rest).bind (fun as rest => ?_)
      rintro ⟨members, closing, hmembers, hclosing, rfl, hshows⟩
      refine leaves_pure ⟨.cons joint spelt (gap ++ ':' :: gap') l members, closing, ?_, hclosing, ?_, ?_⟩
      · exact ⟨hjoint, hspelt, ⟨gap, gap', hgap, hgap', rfl⟩, hl, hmembers⟩
      · simp [MemberLayouts.chars, hkey]
      · intro hplain
        exact ⟨hk hplain.1, ha, hshows hplain.2.2⟩
    · next hmore =>
      rw [if_neg hmore]
      obtain ⟨hclosing, left, rfl⟩ := hjoint
      exact leaves_leave (leaves_pure ⟨.nil, joint, trivial, hclosing, rfl, fun _ => trivial⟩)

theorem Reads.list (h : Reads P read) : ReadsValue (list read) := by
  intro cs
  refine leaves_peekToken? (fun gap rest ahead hgap hcs hahead => ?_)
  rw [hcs]
  split
  · exact leaves_refuseAhead
  · obtain ⟨rest, rfl⟩ := List.head?_eq_some_iff.mp hahead
    refine leaves_enter (leaves_get (fun c => (h.itemsLoop c.size true rest).imp ?_))
    rintro as left ⟨items, closing, hitems, hclosing, rfl⟩
    exact ⟨gap, .list items closing, hgap, ⟨hitems, hclosing⟩, by simp [Layout.chars], trivial⟩
  · exact leaves_refuseValue

theorem Shows.last?_cases {as : List (String × α)} {members : MemberLayouts} (h : Shows P as members)
    (k : String) : (as.reverse.lookup k = none ∧ members.last? k = none) ∨
      ∃ a m, as.reverse.lookup k = some a ∧ members.last? k = some m ∧ P a m.value := by
  induction as generalizing members with
  | nil =>
    cases members with
    | nil => exact .inl ⟨rfl, rfl⟩
    | cons => exact h.elim
  | cons first rest ih =>
    obtain ⟨k', a'⟩ := first
    cases members with
    | nil => exact h.elim
    | cons before key colon value others =>
      obtain ⟨rfl, ha', hrest⟩ := h
      rw [List.reverse_cons, List.lookup_append, lookup_cons_ite, List.lookup_nil, MemberLayouts.last?]
      rcases ih hrest with ⟨hnone, hothers⟩ | ⟨a, m, ha, hm, hP⟩
      · rw [hnone, hothers, Option.none_or]
        by_cases hk : k = k'
        · exact .inr ⟨a', ⟨before, colon, value⟩, if_pos hk, if_pos hk.symm, ha'⟩
        · exact .inl ⟨if_neg hk, if_neg (Ne.symm hk)⟩
      · rw [ha, hm, Option.some_or]
        exact .inr ⟨a, _, rfl, rfl, hP⟩

/-- What is read for a key goes with the last member with it. -/
theorem Reads.map (h : Reads P read) : Reads (fun as l => l.PlainKeys →
    ∀ m ∈ as, ∃ placed, l.member? m.1 = some placed ∧ P m.2 placed.value) (map read) := by
  intro cs
  refine leaves_peekToken? (fun gap rest ahead hgap hcs hahead => ?_)
  rw [hcs]
  split
  · exact leaves_refuseAhead
  · obtain ⟨rest, rfl⟩ := List.head?_eq_some_iff.mp hahead
    refine leaves_enter (leaves_get (fun c => (h.membersLoop c.size true rest).image ?_))
    rintro as left ⟨members, closing, hmembers, hclosing, rfl, hshows⟩
    refine ⟨gap, .object members closing, hgap, ⟨hmembers, hclosing⟩, by simp [Layout.chars], ?_⟩
    rintro hplain ⟨k, a⟩ hm
    have hlookup := lookup_of_mem (ascending_sorted as).nodup hm
    rw [lookup_sorted] at hlookup
    rcases (hshows hplain).last?_cases k with ⟨hnone, -⟩ | ⟨a', placed, ha', hplaced, hP⟩
    · simp [hlookup] at hnone
    · rw [hlookup] at ha'
      cases ha'
      exact ⟨_, Layout.member?_object hplaced closing, hP⟩
  · exact leaves_refuseValue

end

theorem readsValue_valueWithin (levels : Nat) : ReadsValue (valueWithin levels) := by
  induction levels with
  | zero => exact reads_refuseHere
  | succ levels ih =>
    intro cs
    refine leaves_peekToken? (fun gap rest ahead hgap hcs hahead => ?_)
    rw [hcs]
    split
    · exact leaves_refuseAhead
    · obtain ⟨rest, rfl⟩ := List.head?_eq_some_iff.mp hahead
      exact leaves_advance (leaves_rest_of_word hgap isToken_null trivial)
    · obtain ⟨rest, rfl⟩ := List.head?_eq_some_iff.mp hahead
      exact leaves_advance (leaves_rest_of_word hgap isToken_true trivial)
    · obtain ⟨rest, rfl⟩ := List.head?_eq_some_iff.mp hahead
      exact leaves_advance (leaves_rest_of_word hgap isToken_false trivial)
    · obtain ⟨rest, rfl⟩ := List.head?_eq_some_iff.mp hahead
      exact leaves_advance (leaves_rest_of_string hgap (fun _ _ => trivial))
    · obtain ⟨rest, rfl⟩ := List.head?_eq_some_iff.mp hahead
      refine leaves_advance (Leaves.image (readsNumeral_numberBody true rest) (fun n left hnumeral => ?_))
      obtain ⟨chars, hchars, heq⟩ := hnumeral.signed.exists_token
      rw [heq]
      exact covers_token hgap hchars trivial
    · exact (ih.list.image Json.arr).behind hgap
    · exact (ih.map.image (fun _ _ _ => trivial)).behind hgap
    · split
      · refine Leaves.image (readsNumeral_numberBody false rest) (fun n left hnumeral => ?_)
        obtain ⟨chars, hchars, heq⟩ := hnumeral.exists_token
        rw [heq]
        exact covers_token hgap hchars trivial
      · exact leaves_refuseAhead

theorem readsValue_value : ReadsValue value := readsValue_valueWithin (depthLimit + 2)

def skipKey : Reader Unit := do
  match ← peekToken? with
  | some '"' => advance
  | _ => refuseAhead
  skipString
  colon

theorem leaves_skipKey (cs : List Char) :
    Leaves skipKey cs (fun _ rest => ∃ (gap : List Char) (spelt : String)
    (gap' : List Char), IsGap gap ∧ IsSpelling spelt.toList ∧ IsGap gap' ∧
      cs = gap ++ (quotedKey spelt ++ (gap' ++ ':' :: rest))) := by
  refine leaves_peekToken? (fun gap rest ahead hgap hcs hahead => ?_)
  dsimp only
  split
  · obtain ⟨rest, rfl⟩ := List.head?_eq_some_iff.mp hahead
    refine leaves_advance ((leaves_skipString rest).bind (fun _ left => ?_))
    rintro ⟨spelling, hspelling, rfl⟩
    refine (leaves_colon left).imp ?_
    rintro _ rest ⟨gap', hgap', rfl⟩
    exact ⟨gap, String.ofList spelling, gap', hgap, by simpa using hspelling, hgap', by simp [hcs, quotedKey]⟩
  · exact leaves_bind_of_gives gives_refuseAhead

/-- Behind a value within brackets, all of them have been closed, after further items and members. -/
def Closes : (brackets : List Bool) → (cs rest : List Char) → Prop
  | [], cs, rest => cs = rest
  | true :: brackets, cs, rest =>
    ∃ (items : ItemLayouts) (closing between : List Char), items.WellFormed false ∧
      IsGap closing ∧ cs = items.chars ++ (closing ++ ']' :: between) ∧ Closes brackets between rest
  | false :: brackets, cs, rest => ∃ (members : MemberLayouts) (closing between : List Char),
      members.WellFormed false ∧ IsGap closing ∧ cs = members.chars ++ (closing ++ '\x7d' :: between) ∧
      Closes brackets between rest

/-- A value has been read over, and all brackets that it stands in have been closed. -/
def CoversWithin (brackets : List Bool) (cs rest : List Char) : Prop :=
  ∃ gap l between, IsGap gap ∧ Layout.WellFormed l ∧ cs = gap ++ (l.chars ++ between) ∧
    Closes brackets between rest

/-- What is left once some brackets have been closed: nothing of them, or a further value within the
others. -/
def ClosesLater : (brackets : List Bool) → (cs rest : List Char) → Prop
  | [], cs, rest => cs = rest
  | bracket :: brackets, cs, rest => CoversWithin (bracket :: brackets) cs rest

/-- Closing leads to a further value or to the end. -/
theorem leaves_close (brackets : List Bool) (cs : List Char) : Leaves (skipFrom.close skipKey brackets) cs
    (fun brackets' rest => ∀ left, ClosesLater brackets' rest left → Closes brackets cs left) := by
  induction brackets generalizing cs with
  | nil => exact leaves_pure (fun _ h => h)
  | cons isList brackets ih =>
    rw [skipFrom.close]
    refine leaves_peekToken? (fun gap rest ahead hgap hcs hahead => ?_)
    rw [hcs]
    dsimp only
    split
    · obtain ⟨rest, rfl⟩ := List.head?_eq_some_iff.mp hahead
      refine leaves_advance ?_
      cases isList with
      | true =>
        -- The further value, once it has been read over, is the first of the items up to the bracket.
        refine leaves_pure ?_
        rintro left ⟨gap', l, between, hgap', hl, rfl, items, closing, between', hitems, hclosing, rfl, hrest⟩
        refine ⟨.cons (gap ++ ',' :: gap') l items, closing, between', ?_, hclosing,
          by simp [ItemLayouts.chars], hrest⟩
        exact ⟨⟨gap, gap', hgap, hgap', rfl⟩, hl, hitems⟩
      | false =>
        refine (leaves_skipKey rest).bind (fun _ rest => ?_)
        rintro ⟨gap₁, spelt, gap₂, hgap₁, hspelt, hgap₂, rfl⟩
        refine leaves_pure ?_
        rintro left ⟨gap', l, between, hgap', hl, rfl, members, closing, between', hmembers,
          hclosing, rfl, hrest⟩
        refine ⟨.cons (gap ++ ',' :: gap₁) spelt (gap₂ ++ ':' :: gap') l members, closing,
          between', ?_, hclosing,
          by simp [MemberLayouts.chars], hrest⟩
        exact ⟨⟨gap, gap₁, hgap, hgap₁, rfl⟩, hspelt, ⟨gap₂, gap', hgap₂, hgap', rfl⟩, hl, hmembers⟩
    · obtain ⟨rest, rfl⟩ := List.head?_eq_some_iff.mp hahead
      split
      · next hlist =>
        subst hlist
        refine leaves_advance ((ih rest).imp ?_)
        intro brackets' rest' h left hleft
        exact ⟨.nil, gap, rest, trivial, hgap, rfl, h left hleft⟩
      · exact leaves_refuseAhead
    · obtain ⟨rest, rfl⟩ := List.head?_eq_some_iff.mp hahead
      split
      · exact leaves_refuseAhead
      · next hlist =>
        obtain rfl := Bool.eq_false_of_not_eq_true hlist
        refine leaves_advance ((ih rest).imp ?_)
        intro brackets' rest' h left hleft
        exact ⟨.nil, gap, rest, trivial, hgap, rfl, h left hleft⟩
    · exact leaves_refuseAhead

def skipBehind (fuel : Nat) (brackets : List Bool) : Reader Unit := do
  match ← skipFrom.close skipKey brackets with
  | [] => pure ()
  | brackets => skipFrom fuel brackets

theorem leaves_skipBehind {fuel : Nat} (h : ∀ brackets cs, Leaves (skipFrom fuel brackets) cs
      (fun _ rest => CoversWithin brackets cs rest)) (brackets : List Bool) (cs : List Char) :
    Leaves (skipBehind fuel brackets) cs (fun _ rest => Closes brackets cs rest) := by
  refine (leaves_close brackets cs).bind (fun brackets' rest hlater => ?_)
  split
  · exact leaves_pure (hlater rest rfl)
  · next hne =>
    refine (h brackets' rest).imp (fun _ left hleft => hlater left ?_)
    cases brackets' with
    | nil => exact absurd rfl hne
    | cons => exact hleft

theorem leaves_skipFrom (fuel : Nat) (brackets : List Bool) (cs : List Char) :
    Leaves (skipFrom fuel brackets) cs (fun _ rest => CoversWithin brackets cs rest) := by
  induction fuel generalizing brackets cs with
  | zero => exact leaves_refuseHere
  | succ fuel ih =>
    have hscalar : ∀ {gap chars left : List Char}, IsGap gap → IsToken chars →
        Leaves (skipBehind fuel brackets) left (fun _ rest =>
          CoversWithin brackets (gap ++ (chars ++ left)) rest) := by
      intro gap chars left hgap hchars
      refine (leaves_skipBehind ih brackets left).imp (fun _ rest hrest => ?_)
      exact ⟨gap, .scalar chars, left, hgap, by rwa [Layout.WellFormed], by rw [Layout.chars], hrest⟩
    have hword : ∀ {gap expected rest : List Char} {letter : Char}, IsGap gap → IsToken (letter :: expected) →
        Leaves (word expected >>= fun _ => skipBehind fuel brackets) rest
          (fun _ left => CoversWithin brackets (gap ++ letter :: rest) left) := by
      intro gap expected rest letter hgap htoken
      refine (leaves_word expected rest).bind (fun _ left hleft => ?_)
      rw [hleft]
      exact hscalar hgap htoken
    rw [skipFrom]
    refine leaves_peekToken? (fun gap rest ahead hgap hcs hahead => ?_)
    rw [hcs]
    split
    · exact leaves_refuseAhead
    · obtain ⟨rest, rfl⟩ := List.head?_eq_some_iff.mp hahead
      exact leaves_advance (hword hgap isToken_null)
    · obtain ⟨rest, rfl⟩ := List.head?_eq_some_iff.mp hahead
      exact leaves_advance (hword hgap isToken_true)
    · obtain ⟨rest, rfl⟩ := List.head?_eq_some_iff.mp hahead
      exact leaves_advance (hword hgap isToken_false)
    · obtain ⟨rest, rfl⟩ := List.head?_eq_some_iff.mp hahead
      refine leaves_advance ((leaves_skipString rest).bind (fun _ left => ?_))
      rintro ⟨spelling, hspelling, rfl⟩
      refine (leaves_skipBehind ih brackets left).imp (fun _ rest hrest => ?_)
      exact ⟨gap, .scalar ('"' :: (spelling ++ ['"'])), left, hgap, .string hspelling,
        by simp [Layout.chars], hrest⟩
    · obtain ⟨rest, rfl⟩ := List.head?_eq_some_iff.mp hahead
      refine leaves_advance (Leaves.bind (readsNumeral_skipNumber rest) (fun _ left hnumeral => ?_))
      obtain ⟨chars, hchars, heq⟩ := hnumeral.signed.exists_token
      rw [heq]
      exact hscalar hgap hchars
    · obtain ⟨rest, rfl⟩ := List.head?_eq_some_iff.mp hahead
      refine leaves_advance (leaves_peekToken? (fun gap' rest' ahead' hgap' hrest hahead' => ?_))
      rw [hrest]
      split
      · obtain ⟨left, rfl⟩ := List.head?_eq_some_iff.mp hahead'
        refine leaves_advance ((leaves_skipBehind ih brackets left).imp (fun _ rest hleft => ?_))
        exact ⟨gap, .list .nil gap', left, hgap, ⟨trivial, hgap'⟩,
          by simp [Layout.chars, ItemLayouts.chars], hleft⟩
      · exact leaves_refuseAhead
      · refine (ih (true :: brackets) rest').imp ?_
        rintro _ left ⟨gap₁, l, between, hgap₁, hl, rfl, items, closing, between', hitems,
          hclosing, rfl, hleft⟩
        refine ⟨gap, .list (.cons (gap' ++ gap₁) l items) closing, between', hgap, ?_, ?_, hleft⟩
        · exact ⟨⟨hgap'.append hgap₁, hl, hitems⟩, hclosing⟩
        · simp [Layout.chars, ItemLayouts.chars]
    · obtain ⟨rest, rfl⟩ := List.head?_eq_some_iff.mp hahead
      refine leaves_advance (leaves_peekToken? (fun gap' rest' ahead' hgap' hrest hahead' => ?_))
      rw [hrest]
      split
      · obtain ⟨left, rfl⟩ := List.head?_eq_some_iff.mp hahead'
        refine leaves_advance ((leaves_skipBehind ih brackets left).imp (fun _ rest hleft => ?_))
        exact ⟨gap, .object .nil gap', left, hgap, ⟨trivial, hgap'⟩,
          by simp [Layout.chars, MemberLayouts.chars], hleft⟩
      · exact leaves_refuseAhead
      · refine Leaves.bind (leaves_skipKey rest') (fun _ between₀ => ?_)
        rintro ⟨gap₁, spelt, gap₂, hgap₁, hspelt, hgap₂, rfl⟩
        refine (ih (false :: brackets) between₀).imp ?_
        rintro _ left ⟨gap₃, l, between, hgap₃, hl, rfl, members, closing, between', hmembers,
          hclosing, rfl, hleft⟩
        refine ⟨gap, .object (.cons (gap' ++ gap₁) spelt (gap₂ ++ ':' :: gap₃) l members) closing,
          between', hgap, ?_, ?_, hleft⟩
        · exact ⟨⟨hgap'.append hgap₁, hspelt, ⟨gap₂, gap₃, hgap₂, hgap₃, rfl⟩, hl, hmembers⟩, hclosing⟩
        · simp [Layout.chars, MemberLayouts.chars]
    · split
      · refine Leaves.bind (readsNumeral_skipNumber rest) (fun _ left hnumeral => ?_)
        obtain ⟨chars, hchars, heq⟩ := hnumeral.exists_token
        rw [heq]
        exact hscalar hgap hchars
      · exact leaves_refuseAhead

theorem readsValue_skipValue : ReadsValue skipValue := by
  intro cs
  refine leaves_get (fun c => (leaves_skipFrom c.size [] cs).imp ?_)
  rintro _ rest ⟨gap, l, between, hgap, hl, rfl, rfl⟩
  exact ⟨gap, l, hgap, hl, rfl, trivial⟩

end ProviderSdk.Json.Reader
