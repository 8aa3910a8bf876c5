import ProviderSdk.Json.Reading

/-!
# Layouts of JSON texts

How a JSON value stands in a text: its scalars and keys as they are spelt, with all that stands
between them. A text has one layout at most. Keys lead from a value to the last member with the
first of them, then on from the value of that member.
-/

namespace ProviderSdk.Json

open Cursor (isSeparator)

mutual

/-- A value as it stands in a text. -/
inductive Layout where
  | scalar (chars : List Char)
  | list (items : ItemLayouts) (closing : List Char)
  | object (members : MemberLayouts) (closing : List Char)

inductive ItemLayouts where
  | nil
  | cons (before : List Char) (item : Layout) (rest : ItemLayouts)

/-- The members of an object, each with what stands before its key and between its key and its value. -/
inductive MemberLayouts where
  | nil
  | cons (before : List Char) (key : String) (colon : List Char) (value : Layout) (rest : MemberLayouts)

end

def quotedKey (key : String) : List Char := '"' :: (key.toList ++ ['"'])

mutual

/-- The characters of a value, from its first to its last. -/
def Layout.chars : Layout → List Char
  | .scalar chars => chars
  | .list items closing => '[' :: (items.chars ++ (closing ++ [']']))
  | .object members closing => '\x7b' :: (members.chars ++ (closing ++ ['\x7d']))
  termination_by structural l => l

def ItemLayouts.chars : ItemLayouts → List Char
  | .nil => []
  | .cons before item rest => before ++ (item.chars ++ rest.chars)
  termination_by structural items => items

def MemberLayouts.chars : MemberLayouts → List Char
  | .nil => []
  | .cons before key colon value rest => before ++ (quotedKey key ++ (colon ++ (value.chars ++ rest.chars)))
  termination_by structural members => members

end

def IsGap (cs : List Char) : Prop := ∀ c ∈ cs, isSeparator c = true

def IsComma (cs : List Char) : Prop :=
  ∃ before after, IsGap before ∧ IsGap after ∧ cs = before ++ ',' :: after

def IsColon (cs : List Char) : Prop :=
  ∃ before after, IsGap before ∧ IsGap after ∧ cs = before ++ ':' :: after

/-- What may stand before an item or a member, the first or a further one. -/
def IsJoint (isFirst : Bool) (cs : List Char) : Prop := if isFirst then IsGap cs else IsComma cs

/-- Whether a character stands for itself between tokens. -/
def isMark (c : Char) : Bool :=
  isSeparator c || c == ',' || c == ':' || c == '"' || c == '[' || c == ']' || c == '\x7b' || c == '\x7d'

/-- What may stand between quotes: every quote is escaped. -/
inductive IsSpelling : List Char → Prop where
  | nil : IsSpelling []
  | plain {c rest} (quote : c ≠ '"') (backslash : c ≠ '\\') (others : IsSpelling rest) :
    IsSpelling (c :: rest)
  | escape {c rest} (others : IsSpelling rest) : IsSpelling ('\\' :: c :: rest)

inductive IsToken : List Char → Prop where
  | word {chars} (ne_nil : chars ≠ []) (unmarked : ∀ c ∈ chars, isMark c = false) : IsToken chars
  | string {spelling} (spells : IsSpelling spelling) : IsToken ('"' :: (spelling ++ ['"']))

mutual

/-- Whether a value can stand in a text as it is laid out. -/
def Layout.WellFormed : Layout → Prop
  | .scalar chars => IsToken chars
  | .list items closing => items.WellFormed true ∧ IsGap closing
  | .object members closing => members.WellFormed true ∧ IsGap closing
  termination_by structural l => l

/-- Whether items can stand in a list, the first items of it or further ones. -/
def ItemLayouts.WellFormed (isFirst : Bool) : ItemLayouts → Prop
  | .nil => True
  | .cons before item rest => IsJoint isFirst before ∧ item.WellFormed ∧ rest.WellFormed false
  termination_by structural items => items

/-- Whether members can stand in an object, the first members of it or further ones. -/
def MemberLayouts.WellFormed (isFirst : Bool) : MemberLayouts → Prop
  | .nil => True
  | .cons before key colon value rest =>
    IsJoint isFirst before ∧ IsSpelling key.toList ∧ IsColon colon ∧ value.WellFormed ∧ rest.WellFormed false
  termination_by structural members => members

end

theorem isGap_nil : IsGap [] := by
  intro c hc
  cases hc

theorem IsGap.append {before after : List Char} (hbefore : IsGap before) (hafter : IsGap after) :
    IsGap (before ++ after) := by
  intro c hc
  rcases List.mem_append.mp hc with hc | hc
  · exact hbefore c hc
  · exact hafter c hc

/-- A gap ends where something else begins. -/
theorem IsGap.append_inj {gap gap' s s' : List Char} {a a' : Char} (hgap : IsGap gap) (hgap' : IsGap gap')
    (ha : isSeparator a = false) (ha' : isSeparator a' = false) (h : gap ++ a :: s = gap' ++ a' :: s') :
    gap = gap' ∧ a = a' ∧ s = s' := by
  induction gap generalizing gap' with
  | nil =>
    cases gap' with
    | nil =>
      cases h
      exact ⟨rfl, rfl, rfl⟩
    | cons c rest' =>
      cases h
      simp [hgap' a List.mem_cons_self] at ha
  | cons c rest ih =>
    cases gap' with
    | nil =>
      cases h
      simp [hgap a' List.mem_cons_self] at ha'
    | cons c' rest' =>
      obtain ⟨rfl, hrest⟩ := List.cons.inj h
      obtain ⟨rfl, rfl, rfl⟩ := ih (fun c hc => hgap c (List.mem_cons_of_mem _ hc))
        (fun c hc => hgap' c (List.mem_cons_of_mem _ hc)) hrest
      exact ⟨rfl, rfl, rfl⟩

/-- Characters without quotes and backslashes are spelt as they are. -/
theorem isSpelling_of_plain {cs : List Char} (h : ∀ c ∈ cs, c ≠ '"' ∧ c ≠ '\\') : IsSpelling cs := by
  induction cs with
  | nil => exact .nil
  | cons c cs ih =>
    obtain ⟨hc, hcs⟩ := List.forall_mem_cons.mp h
    exact .plain hc.1 hc.2 (ih hcs)

theorem IsSpelling.append {spelling more : List Char} (h : IsSpelling spelling) (hmore : IsSpelling more) :
    IsSpelling (spelling ++ more) := by
  induction h with
  | nil => exact hmore
  | plain quote backslash _ ih => exact .plain quote backslash ih
  | escape _ ih => exact .escape ih

/-- A spelling ends at the first quote that is not escaped. -/
theorem IsSpelling.append_inj {spelling spelling' s s' : List Char} (hspelling : IsSpelling spelling)
    (hspelling' : IsSpelling spelling') (h : spelling ++ '"' :: s = spelling' ++ '"' :: s') :
    spelling = spelling' ∧ s = s' := by
  induction hspelling generalizing spelling' with
  | nil =>
    cases hspelling' with
    | nil => exact ⟨rfl, (List.cons.inj h).2⟩
    | plain quote => exact absurd (List.cons.inj h).1.symm quote
    | escape => simp at h
  | plain quote backslash _ ih =>
    cases hspelling' with
    | nil => exact absurd (List.cons.inj h).1 quote
    | plain _ _ others =>
      obtain ⟨rfl, hrest⟩ := List.cons.inj h
      obtain ⟨rfl, rfl⟩ := ih others hrest
      exact ⟨rfl, rfl⟩
    | escape => exact absurd (List.cons.inj h).1 backslash
  | escape _ ih =>
    cases hspelling' with
    | nil => simp at h
    | plain _ backslash => exact absurd (List.cons.inj h).1.symm backslash
    | escape others =>
      obtain ⟨rfl, hrest⟩ := List.cons.inj (List.cons.inj h).2
      obtain ⟨rfl, rfl⟩ := ih others hrest
      exact ⟨rfl, rfl⟩

/-- What may stand behind a token: nothing, or a character that belongs to no word. -/
def IsEnd (rest : List Char) : Prop := ∀ c ∈ rest.head?, isMark c = true

theorem isEnd_cons {c : Char} (hc : isMark c = true) (rest : List Char) : IsEnd (c :: rest) := by
  intro c' hc'
  cases hc'
  exact hc

theorem isMark_of_isSeparator {c : Char} (h : isSeparator c = true) : isMark c = true := by
  simp [isMark, h]

theorem IsGap.isEnd_append {gap rest : List Char} (hgap : IsGap gap) (hrest : IsEnd rest) :
    IsEnd (gap ++ rest) := by
  cases gap with
  | nil => exact hrest
  | cons c gap => exact isEnd_cons (isMark_of_isSeparator (hgap c List.mem_cons_self)) _

/-- A word ends where something else begins. -/
theorem word_append_inj {word word' rest rest' : List Char} (hword : ∀ c ∈ word, isMark c = false)
    (hword' : ∀ c ∈ word', isMark c = false) (hrest : IsEnd rest) (hrest' : IsEnd rest')
    (h : word ++ rest = word' ++ rest') : word = word' ∧ rest = rest' := by
  induction word generalizing word' with
  | nil =>
    cases word' with
    | nil => exact ⟨rfl, h⟩
    | cons c word' =>
      rw [List.nil_append] at h
      have hmark := hrest c (by simp [h])
      simp [hword' c List.mem_cons_self] at hmark
  | cons c word ih =>
    cases word' with
    | nil =>
      rw [List.nil_append] at h
      have hmark := hrest' c (by simp [← h])
      simp [hword c List.mem_cons_self] at hmark
    | cons c' word' =>
      obtain ⟨rfl, htail⟩ := List.cons.inj h
      obtain ⟨rfl, rfl⟩ := ih (fun c hc => hword c (List.mem_cons_of_mem _ hc))
        (fun c hc => hword' c (List.mem_cons_of_mem _ hc)) htail
      exact ⟨rfl, rfl⟩

/-- A token begins with a quote or with a character that is no mark. -/
theorem IsToken.exists_head {chars : List Char} (h : IsToken chars) :
    ∃ c rest, chars = c :: rest ∧ (c = '"' ∨ isMark c = false) := by
  cases h with
  | word ne_nil unmarked =>
    obtain ⟨c, rest, rfl⟩ := List.exists_cons_of_ne_nil ne_nil
    exact ⟨c, rest, rfl, .inr (unmarked c List.mem_cons_self)⟩
  | string spells => exact ⟨_, _, rfl, .inl rfl⟩

theorem IsToken.append_ne {chars rest s : List Char} {c : Char} (h : IsToken chars) (hc : isMark c = true)
    (hne : c ≠ '"') :
    chars ++ rest ≠ c :: s := by
  obtain ⟨c', chars', rfl, hc'⟩ := h.exists_head
  intro heq
  obtain ⟨rfl, -⟩ := List.cons.inj heq
  rcases hc' with rfl | hc'
  · exact hne rfl
  · simp [hc] at hc'

theorem IsToken.append_inj {chars chars' rest rest' : List Char} (hchars : IsToken chars)
    (hchars' : IsToken chars') (hrest : IsEnd rest) (hrest' : IsEnd rest')
    (h : chars ++ rest = chars' ++ rest') :
    chars = chars' ∧ rest = rest' := by
  cases hchars with
  | word ne_nil unmarked =>
    cases hchars' with
    | word _ unmarked' => exact word_append_inj unmarked unmarked' hrest hrest' h
    | string =>
      obtain ⟨c, word, rfl⟩ := List.exists_cons_of_ne_nil ne_nil
      obtain ⟨rfl, -⟩ := List.cons.inj h
      simp [isMark] at unmarked
  | string spells =>
    cases hchars' with
    | word ne_nil unmarked' =>
      obtain ⟨c, word, rfl⟩ := List.exists_cons_of_ne_nil ne_nil
      obtain ⟨rfl, -⟩ := List.cons.inj h
      simp [isMark] at unmarked'
    | string spells' =>
      obtain ⟨rfl, rfl⟩ := spells.append_inj spells' (by simpa using h)
      exact ⟨rfl, rfl⟩

/-- A value begins with a quote, with an opening bracket or with a character that is no mark. -/
theorem Layout.WellFormed.exists_head {l : Layout} (h : l.WellFormed) :
    ∃ c rest, l.chars = c :: rest ∧ (c = '"' ∨ c = '[' ∨ c = '\x7b' ∨ isMark c = false) := by
  cases l with
  | scalar chars =>
    rw [Layout.WellFormed] at h
    obtain ⟨c, rest, rfl, hc⟩ := h.exists_head
    refine ⟨c, rest, by rw [Layout.chars], ?_⟩
    rcases hc with hc | hc
    · exact .inl hc
    · exact .inr (.inr (.inr hc))
  | list items closing => exact ⟨'[', _, by rw [Layout.chars], .inr (.inl rfl)⟩
  | object members closing => exact ⟨'\x7b', _, by rw [Layout.chars], .inr (.inr (.inl rfl))⟩

theorem Layout.WellFormed.exists_unseparated {l : Layout} (h : l.WellFormed) :
    ∃ c rest, l.chars = c :: rest ∧ isSeparator c = false ∧ c ≠ ']' := by
  obtain ⟨c, rest, hchars, hc⟩ := h.exists_head
  refine ⟨c, rest, hchars, ?_⟩
  rcases hc with rfl | rfl | rfl | hc
  · decide
  · decide
  · decide
  · constructor
    · simp only [isMark, Bool.or_eq_false_iff] at hc
      exact hc.1.1.1.1.1.1.1
    · rintro rfl
      cases hc

theorem IsJoint.append_gap {isFirst : Bool} {joint gap : List Char} (hjoint : IsJoint isFirst joint)
    (hgap : IsGap gap) :
    IsJoint isFirst (joint ++ gap) := by
  cases isFirst with
  | true => exact IsGap.append hjoint hgap
  | false =>
    obtain ⟨before, after, hbefore, hafter, rfl⟩ := hjoint
    exact ⟨before, after ++ gap, hbefore, hafter.append hgap, by simp⟩

/-- What stands before an item or a member ends where that begins. -/
theorem IsJoint.append_inj {isFirst : Bool} {joint joint' s s' : List Char} {a a' : Char}
    (hjoint : IsJoint isFirst joint) (hjoint' : IsJoint isFirst joint') (ha : isSeparator a = false)
    (ha' : isSeparator a' = false)
    (h : joint ++ a :: s = joint' ++ a' :: s') : joint = joint' ∧ a = a' ∧ s = s' := by
  cases isFirst with
  | true => exact IsGap.append_inj hjoint hjoint' ha ha' h
  | false =>
    obtain ⟨before, after, hbefore, hafter, rfl⟩ := hjoint
    obtain ⟨before', after', hbefore', hafter', rfl⟩ := hjoint'
    simp only [List.append_assoc, List.cons_append] at h
    obtain ⟨rfl, -, hrest⟩ := hbefore.append_inj hbefore' rfl rfl h
    obtain ⟨rfl, rfl, rfl⟩ := hafter.append_inj hafter' ha ha' hrest
    exact ⟨rfl, rfl, rfl⟩

/-- A bracket closes where no further item or member follows. -/
theorem IsJoint.closing_ne {isFirst : Bool} {joint closing s rest : List Char} {a bracket : Char}
    (hjoint : IsJoint isFirst joint) (hclosing : IsGap closing) (ha : isSeparator a = false)
    (hbracket : isSeparator bracket = false) (hne : bracket ≠ a) (hcomma : bracket ≠ ',') :
    closing ++ bracket :: rest ≠ joint ++ a :: s := by
  intro h
  cases isFirst with
  | true => exact hne (IsGap.append_inj hclosing hjoint hbracket ha h).2.1
  | false =>
    obtain ⟨before, after, hbefore, hafter, rfl⟩ := hjoint
    simp only [List.append_assoc, List.cons_append] at h
    exact hcomma (hclosing.append_inj hbefore hbracket rfl h).2.1

theorem IsColon.append_inj {colon colon' s s' : List Char} {a a' : Char} (hcolon : IsColon colon)
    (hcolon' : IsColon colon') (ha : isSeparator a = false) (ha' : isSeparator a' = false)
    (h : colon ++ a :: s = colon' ++ a' :: s') : colon = colon' ∧ a :: s = a' :: s' := by
  obtain ⟨before, after, hbefore, hafter, rfl⟩ := hcolon
  obtain ⟨before', after', hbefore', hafter', rfl⟩ := hcolon'
  simp only [List.append_assoc, List.cons_append] at h
  obtain ⟨rfl, -, hrest⟩ := hbefore.append_inj hbefore' rfl rfl h
  obtain ⟨rfl, rfl, rfl⟩ := hafter.append_inj hafter' ha ha' hrest
  exact ⟨rfl, rfl⟩

theorem IsJoint.isEnd_append {joint rest : List Char} (h : IsJoint false joint) : IsEnd (joint ++ rest) := by
  obtain ⟨before, after, hbefore, -, rfl⟩ := h
  rw [List.append_assoc]
  exact hbefore.isEnd_append (isEnd_cons rfl _)

theorem ItemLayouts.WellFormed.isEnd {items : ItemLayouts} (h : items.WellFormed false) {closing : List Char}
    (hclosing : IsGap closing) (rest : List Char) : IsEnd (items.chars ++ (closing ++ ']' :: rest)) := by
  cases items with
  | nil => exact hclosing.isEnd_append (isEnd_cons rfl rest)
  | cons before item others =>
    rw [ItemLayouts.WellFormed] at h
    rw [ItemLayouts.chars, List.append_assoc]
    exact h.1.isEnd_append

theorem MemberLayouts.WellFormed.isEnd {members : MemberLayouts} (h : members.WellFormed false)
    {closing : List Char} (hclosing : IsGap closing) (rest : List Char) :
    IsEnd (members.chars ++ (closing ++ '\x7d' :: rest)) := by
  cases members with
  | nil => exact hclosing.isEnd_append (isEnd_cons rfl rest)
  | cons before key colon value others =>
    rw [MemberLayouts.WellFormed] at h
    rw [MemberLayouts.chars, List.append_assoc]
    exact h.1.isEnd_append

mutual

/-- A value ends where its layout says, and no other layout has the same characters. -/
theorem Layout.append_inj {rest rest' : List Char} (hrest : IsEnd rest) (hrest' : IsEnd rest') :
    (l l' : Layout) → l.WellFormed → l'.WellFormed → l.chars ++ rest = l'.chars ++ rest' →
    l = l' ∧ rest = rest'
  | .scalar chars, .scalar chars', hl, hl', h => by
    simp only [Layout.WellFormed] at hl hl'
    simp only [Layout.chars] at h
    obtain ⟨rfl, rfl⟩ := hl.append_inj hl' hrest hrest' h
    exact ⟨rfl, rfl⟩
  | .list items closing, .list items' closing', hl, hl', h => by
    simp only [Layout.WellFormed] at hl hl'
    obtain ⟨rfl, rfl, rfl⟩ :=
      ItemLayouts.append_inj items items' hl.1 hl'.1 hl.2 hl'.2 (by simpa [Layout.chars] using h)
    exact ⟨rfl, rfl⟩
  | .object members closing, .object members' closing', hl, hl', h => by
    simp only [Layout.WellFormed] at hl hl'
    obtain ⟨rfl, rfl, rfl⟩ :=
      MemberLayouts.append_inj members members' hl.1 hl'.1 hl.2 hl'.2 (by simpa [Layout.chars] using h)
    exact ⟨rfl, rfl⟩
  | .scalar chars, .list items closing, hl, _, h => by
    simp only [Layout.WellFormed] at hl
    simp only [Layout.chars] at h
    exact absurd h (hl.append_ne rfl (by decide))
  | .scalar chars, .object members closing, hl, _, h => by
    simp only [Layout.WellFormed] at hl
    simp only [Layout.chars] at h
    exact absurd h (hl.append_ne rfl (by decide))
  | .list items closing, .scalar chars, _, hl', h => by
    simp only [Layout.WellFormed] at hl'
    simp only [Layout.chars] at h
    exact absurd h.symm (hl'.append_ne rfl (by decide))
  | .object members closing, .scalar chars, _, hl', h => by
    simp only [Layout.WellFormed] at hl'
    simp only [Layout.chars] at h
    exact absurd h.symm (hl'.append_ne rfl (by decide))
  | .list items closing, .object members closing', _, _, h => by
    simp [Layout.chars] at h
  | .object members closing, .list items closing', _, _, h => by
    simp [Layout.chars] at h
  termination_by structural l => l

theorem ItemLayouts.append_inj {isFirst : Bool} {closing closing' rest rest' : List Char} :
    (items items' : ItemLayouts) → items.WellFormed isFirst → items'.WellFormed isFirst → IsGap closing →
      IsGap closing' → items.chars ++ (closing ++ ']' :: rest) = items'.chars ++ (closing' ++ ']' :: rest') →
      items = items' ∧ closing = closing' ∧ rest = rest'
  | .nil, .nil, _, _, hclosing, hclosing', h => by
    obtain ⟨rfl, -, rfl⟩ := hclosing.append_inj hclosing' rfl rfl h
    exact ⟨rfl, rfl, rfl⟩
  | .nil, .cons before item others, _, hitems', hclosing, _, h => by
    simp only [ItemLayouts.WellFormed] at hitems'
    obtain ⟨a, chars, hchars, ha, hne⟩ := hitems'.2.1.exists_unseparated
    simp only [ItemLayouts.chars, hchars, List.append_assoc, List.cons_append, List.nil_append] at h
    exact absurd h (hitems'.1.closing_ne hclosing ha rfl hne.symm (by decide))
  | .cons before item others, .nil, hitems, _, _, hclosing', h => by
    simp only [ItemLayouts.WellFormed] at hitems
    obtain ⟨a, chars, hchars, ha, hne⟩ := hitems.2.1.exists_unseparated
    simp only [ItemLayouts.chars, hchars, List.append_assoc, List.cons_append, List.nil_append] at h
    exact absurd h.symm (hitems.1.closing_ne hclosing' ha rfl hne.symm (by decide))
  | .cons before item others, .cons before' item' others', hitems, hitems', hclosing, hclosing', h => by
    simp only [ItemLayouts.WellFormed] at hitems hitems'
    obtain ⟨a, chars, hchars, ha, -⟩ := hitems.2.1.exists_unseparated
    obtain ⟨a', chars', hchars', ha', -⟩ := hitems'.2.1.exists_unseparated
    simp only [ItemLayouts.chars, List.append_assoc] at h
    have hbefore := h
    simp only [hchars, hchars', List.cons_append] at hbefore
    obtain ⟨rfl, -, -⟩ := hitems.1.append_inj hitems'.1 ha ha' hbefore
    obtain ⟨rfl, hothers⟩ :=
      Layout.append_inj (hitems.2.2.isEnd hclosing rest) (hitems'.2.2.isEnd hclosing' rest')
      item item' hitems.2.1 hitems'.2.1 (List.append_cancel_left h)
    obtain ⟨rfl, rfl, rfl⟩ :=
      ItemLayouts.append_inj others others' hitems.2.2 hitems'.2.2 hclosing hclosing' hothers
    exact ⟨rfl, rfl, rfl⟩
  termination_by structural items => items

theorem MemberLayouts.append_inj {isFirst : Bool} {closing closing' rest rest' : List Char} :
    (members members' : MemberLayouts) → members.WellFormed isFirst →
    members'.WellFormed isFirst → IsGap closing →
      IsGap closing' → members.chars ++ (closing ++ '\x7d' :: rest) =
        members'.chars ++ (closing' ++ '\x7d' :: rest') →
      members = members' ∧ closing = closing' ∧ rest = rest'
  | .nil, .nil, _, _, hclosing, hclosing', h => by
    obtain ⟨rfl, -, rfl⟩ := hclosing.append_inj hclosing' rfl rfl h
    exact ⟨rfl, rfl, rfl⟩
  | .nil, .cons before key colon value others, _, hmembers', hclosing, _, h => by
    simp only [MemberLayouts.WellFormed] at hmembers'
    simp only [MemberLayouts.chars, quotedKey, List.append_assoc, List.cons_append, List.nil_append] at h
    exact absurd h (hmembers'.1.closing_ne hclosing rfl rfl (by decide) (by decide))
  | .cons before key colon value others, .nil, hmembers, _, _, hclosing', h => by
    simp only [MemberLayouts.WellFormed] at hmembers
    simp only [MemberLayouts.chars, quotedKey, List.append_assoc, List.cons_append, List.nil_append] at h
    exact absurd h.symm (hmembers.1.closing_ne hclosing' rfl rfl (by decide) (by decide))
  | .cons before key colon value others, .cons before' key' colon' value' others', hmembers,
    hmembers', hclosing,
    hclosing', h => by
    simp only [MemberLayouts.WellFormed] at hmembers hmembers'
    obtain ⟨hbefore, hkey, hcolon, hvalue, hothers⟩ := hmembers
    obtain ⟨hbefore', hkey', hcolon', hvalue', hothers'⟩ := hmembers'
    obtain ⟨a, chars, hchars, ha, -⟩ := hvalue.exists_unseparated
    obtain ⟨a', chars', hchars', ha', -⟩ := hvalue'.exists_unseparated
    simp only [MemberLayouts.chars, quotedKey, List.append_assoc, List.cons_append, List.nil_append] at h
    obtain ⟨rfl, -, hspelt⟩ := hbefore.append_inj hbefore' rfl rfl h
    obtain ⟨hspelling, hcolons⟩ := hkey.append_inj hkey' hspelt
    obtain rfl := String.toList_inj.mp hspelling
    have hvalues := hcolons
    simp only [hchars, hchars', List.cons_append] at hvalues
    obtain ⟨rfl, -⟩ := hcolon.append_inj hcolon' ha ha' hvalues
    obtain ⟨rfl, hrest⟩ := Layout.append_inj (hothers.isEnd hclosing rest) (hothers'.isEnd hclosing' rest')
      value value' hvalue hvalue' (List.append_cancel_left hcolons)
    obtain ⟨rfl, rfl, rfl⟩ :=
      MemberLayouts.append_inj others others' hothers hothers' hclosing hclosing' hrest
    exact ⟨rfl, rfl, rfl⟩
  termination_by structural members => members

end

structure PlacedMember where
  before : List Char
  colon : List Char
  value : Layout

def MemberLayouts.last? (key : String) : MemberLayouts → Option PlacedMember
  | .nil => none
  | .cons before k colon value rest =>
    match rest.last? key with
    | some m => some { m with before := before ++ (quotedKey k ++ (colon ++ (value.chars ++ m.before))) }
    | none => if k = key then some ⟨before, colon, value⟩ else none
  termination_by structural members => members

namespace Layout

def member? (key : String) : Layout → Option PlacedMember
  | .object members _ => (members.last? key).map (fun m => { m with before := '\x7b' :: m.before })
  | .list _ _ => none
  | .scalar _ => none

def isList : Layout → Bool
  | .list _ _ => true
  | _ => false

/-- What stands before the last of several keys, which lead to it from the value on. -/
def before? : List String → Layout → Option (List Char)
  | [], _ => none
  | key :: keys, l =>
    (l.member? key).bind (fun m =>
      if keys = [] then some m.before
      else (m.value.before? keys).map (fun before => m.before ++ (quotedKey key ++ (m.colon ++ before))))

/-- Keys lead to a list, in which the next of them is not spelt. -/
def MeetsList : List String → Layout → Prop
  | [], _ => False
  | key :: keys, l => l.isList = true ∨ ∃ m, l.member? key = some m ∧ m.value.MeetsList keys

def Leads (keys : List String) (l : Layout) : Prop :=
  keys = [] ∨ l.MeetsList keys ∨ ∃ before, l.before? keys = some before

end Layout

/-- A key without dots, quotes and backslashes. -/
def IsPlainKey (key : String) : Prop := ∀ c ∈ key.toList, c ≠ '.' ∧ c ≠ '"' ∧ c ≠ '\\'

mutual

def Layout.PlainKeys : Layout → Prop
  | .scalar _ => True
  | .list items _ => items.PlainKeys
  | .object members _ => members.PlainKeys
  termination_by structural l => l

def ItemLayouts.PlainKeys : ItemLayouts → Prop
  | .nil => True
  | .cons _ item rest => item.PlainKeys ∧ rest.PlainKeys
  termination_by structural items => items

def MemberLayouts.PlainKeys : MemberLayouts → Prop
  | .nil => True
  | .cons _ key _ value rest => IsPlainKey key ∧ value.PlainKeys ∧ rest.PlainKeys
  termination_by structural members => members

end

theorem MemberLayouts.exists_chars_eq {key : String} {m : PlacedMember} :
    (members : MemberLayouts) → members.last? key = some m →
      ∃ after, members.chars = m.before ++ (quotedKey key ++ (m.colon ++ (m.value.chars ++ after)))
  | .nil, h => by simp [last?] at h
  | .cons before k colon value rest, h => by
    rw [last?] at h
    cases hrest : rest.last? key with
    | some found =>
      rw [hrest] at h
      cases h
      obtain ⟨after, hafter⟩ := rest.exists_chars_eq hrest
      exact ⟨after, by simp [chars, hafter]⟩
    | none =>
      rw [hrest] at h
      obtain ⟨rfl, heq⟩ := Option.ite_none_right_eq_some.mp h
      cases heq
      exact ⟨rest.chars, by rw [chars]⟩
  termination_by structural members => members

theorem MemberLayouts.PlainKeys.of_last? {key : String} :
    (members : MemberLayouts) → members.PlainKeys → ∀ m, members.last? key = some m →
      IsPlainKey key ∧ m.value.PlainKeys
  | .nil, _, _, h => by simp [last?] at h
  | .cons before k colon value rest, hplain, _, h => by
    rw [MemberLayouts.PlainKeys] at hplain
    rw [last?] at h
    cases hrest : rest.last? key with
    | some found =>
      rw [hrest] at h
      cases h
      exact MemberLayouts.PlainKeys.of_last? rest hplain.2.2 found hrest
    | none =>
      rw [hrest] at h
      obtain ⟨rfl, heq⟩ := Option.ite_none_right_eq_some.mp h
      cases heq
      exact ⟨hplain.1, hplain.2.1⟩
  termination_by structural members => members

namespace Layout

theorem member?_object {members : MemberLayouts} {key : String} {m : PlacedMember}
    (h : members.last? key = some m) (closing : List Char) :
    (object members closing).member? key = some { m with before := '\x7b' :: m.before } := by
  rw [member?, h, Option.map_some]

theorem exists_chars_eq {key : String} {l : Layout} {m : PlacedMember} (h : l.member? key = some m) :
    ∃ after, l.chars = m.before ++ (quotedKey key ++ (m.colon ++ (m.value.chars ++ after))) := by
  cases l with
  | scalar => cases h
  | list => cases h
  | object members closing =>
    obtain ⟨found, hfound, rfl⟩ := Option.map_eq_some_iff.mp h
    obtain ⟨after, hafter⟩ := members.exists_chars_eq hfound
    exact ⟨after ++ (closing ++ ['\x7d']), by simp [chars, hafter]⟩

theorem PlainKeys.of_member? {key : String} {l : Layout} {m : PlacedMember} (hplain : l.PlainKeys)
    (h : l.member? key = some m) : IsPlainKey key ∧ m.value.PlainKeys := by
  cases l with
  | scalar => cases h
  | list => cases h
  | object members closing =>
    obtain ⟨found, hfound, rfl⟩ := Option.map_eq_some_iff.mp h
    rw [Layout.PlainKeys] at hplain
    exact MemberLayouts.PlainKeys.of_last? members hplain found hfound

/-- Keys that lead to a member of a value with plain keys are plain. -/
theorem PlainKeys.of_before? {keys : List String} {l : Layout} {before : List Char} (hplain : l.PlainKeys)
    (h : l.before? keys = some before) : ∀ key ∈ keys, IsPlainKey key := by
  induction keys generalizing l before with
  | nil => simp
  | cons key keys ih =>
    obtain ⟨m, hm, hbefore⟩ := Option.bind_eq_some_iff.mp h
    obtain ⟨hkey, hvalue⟩ := hplain.of_member? hm
    refine List.forall_mem_cons.mpr ⟨hkey, ?_⟩
    split at hbefore
    · next hnil => simp [hnil]
    · obtain ⟨inner, hinner, -⟩ := Option.map_eq_some_iff.mp hbefore
      exact ih hvalue hinner

theorem leads_nil (l : Layout) : l.Leads [] := .inl rfl

theorem leads_of_isList {l : Layout} (h : l.isList = true) (keys : List String) : l.Leads keys := by
  cases keys with
  | nil => exact .inl rfl
  | cons key keys => exact .inr (.inl (.inl h))

theorem Leads.cons {key : String} {keys : List String} {l : Layout} {m : PlacedMember}
    (hm : l.member? key = some m) (h : m.value.Leads keys) : l.Leads (key :: keys) := by
  rcases h with rfl | hlist | ⟨before, hbefore⟩
  · exact .inr (.inr ⟨m.before, by simp [before?, hm]⟩)
  · exact .inr (.inl (.inr ⟨m, hm, hlist⟩))
  · have hne : keys ≠ [] := by
      rintro rfl
      simp [before?] at hbefore
    exact .inr (.inr ⟨m.before ++ (quotedKey key ++ (m.colon ++ before)),
      by simp [before?, hm, hne, hbefore]⟩)

end Layout

/-- A text that writes one value, as it is laid out. -/
structure TextLayout where
  lead : List Char
  value : Layout
  trail : List Char

namespace TextLayout

def chars (t : TextLayout) : List Char := t.lead ++ (t.value.chars ++ t.trail)

structure WellFormed (t : TextLayout) : Prop where
  lead : IsGap t.lead
  value : t.value.WellFormed
  trail : IsGap t.trail

/-- What stands before the last of several keys, which lead to it from the start of the text. -/
def before? (t : TextLayout) (keys : List String) : Option (List Char) :=
  (t.value.before? keys).map (t.lead ++ ·)

theorem WellFormed.eq {t t' : TextLayout} (h : t.WellFormed) (h' : t'.WellFormed)
    (hchars : t.chars = t'.chars) :
    t = t' := by
  obtain ⟨lead, value, trail⟩ := t
  obtain ⟨lead', value', trail'⟩ := t'
  obtain ⟨c, cs, hvalue, hc, -⟩ := h.value.exists_unseparated
  obtain ⟨c', cs', hvalue', hc', -⟩ := h'.value.exists_unseparated
  have hleads := hchars
  simp only [chars, hvalue, hvalue', List.cons_append] at hleads
  obtain ⟨rfl, -, -⟩ := h.lead.append_inj h'.lead hc hc' hleads
  have hend {trail : List Char} (htrail : IsGap trail) : IsEnd trail := by
    rw [← List.append_nil trail]
    exact htrail.isEnd_append (by simp [IsEnd])
  obtain ⟨rfl, rfl⟩ := Layout.append_inj (hend h.trail) (hend h'.trail) value value' h.value h'.value
    (List.append_cancel_left hchars)
  rfl

end TextLayout

end ProviderSdk.Json
