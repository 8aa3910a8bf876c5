import Mathlib.Logic.Function.Basic
import ProviderSdk.Proofs.Json.Extents

/-!
# How far records are read

A record that is read has read over one value. What its fields have set goes with the last member
with the key of each, unless the record is written as a list.
-/

namespace ProviderSdk.Json.Reader

variable {α ρ : Type}

def under (members : MemberLayouts) (look : String → Option Layout) (key : String) : Option Layout :=
  ((members.last? key).map PlacedMember.value).or (look key)

theorem under_cons (before colon : List Char) (key : String) (value : Layout) (rest : MemberLayouts)
    (look : String → Option Layout) :
    under (.cons before key colon value rest) look = under rest (Function.update look key (some value)) := by
  funext k
  rw [under, under, MemberLayouts.last?]
  cases rest.last? k with
  | some m => rfl
  | none =>
    by_cases hk : key = k
    · subst hk
      simp
    · simp [hk, Function.update_of_ne (Ne.symm hk)]

/-- What a field sets goes with what is found under the keys, once the value that it reads is found
under its own. -/
def RecordField.Tracks (I : (String → Option Layout) → ρ → Prop) (f : RecordField ρ) : Prop :=
  ∀ r, Reads (fun r' l => ∀ look, I look r → I (Function.update look f.key (some l)) r') (f.read r)

/-- What all fields set goes with what is found under the keys, which values under other keys do not
change. -/
structure RecordForm.Tracks (I : (String → Option Layout) → ρ → Prop) (form : RecordForm ρ) : Prop where
  empty : I (fun _ => none) form.empty
  fields : ∀ f ∈ form.fields, f.Tracks I
  unknown : ∀ key, (∀ f ∈ form.fields, f.key ≠ key) →
    ∀ look r l, I look r → I (Function.update look key (some l)) r

section

variable {P : α → Layout → Prop} {I : (String → Option Layout) → ρ → Prop} {key : String} {read : Reader α}
  {set : ρ → α → ρ}

/-- A field sets something that goes with its value. -/
theorem Reads.tracks (hread : Reads P read)
    (hset : ∀ look r a l, I look r → P a l → I (Function.update look key (some l)) (set r a)) :
    (RecordField.of key read set).Tracks I :=
  fun r => hread.image (fun a l ha look hlook => hset look r a l hlook ha)

theorem ReadsValue.tracks (hread : ReadsValue read)
    (hset : ∀ look r a l, I look r → I (Function.update look key (some l)) (set r a)) :
    (RecordField.of key read set).Tracks I :=
  Reads.tracks hread (fun look r a l hlook _ => hset look r a l hlook)

theorem ReadsValue.tracks_needed (hread : ReadsValue read)
    (hset : ∀ look r a l, I look r → I (Function.update look key (some l)) (set r a)) :
    (RecordField.needed key read set).Tracks I :=
  fun r => Reads.image hread (fun a l _ look hlook => hset look r a l hlook)

end

section

variable {I : (String → Option Layout) → ρ → Prop} {form : RecordForm ρ}

theorem RecordForm.Tracks.members (h : form.Tracks I) (fuel : Nat) (isFirst : Bool) (seen : List String)
    (r : ρ) (cs : List Char) : Leaves (form.members fuel isFirst seen r) cs (fun r' rest => ∃ members closing,
      MemberLayouts.WellFormed isFirst members ∧ IsGap closing ∧
        cs = members.chars ++ (closing ++ '\x7d' :: rest) ∧
      (members.PlainKeys → ∀ look, I look r → I (under members look) r')) := by
  induction fuel generalizing isFirst seen r cs with
  | zero => exact leaves_refuseHere
  | succ fuel ih =>
    refine (leaves_moreMembers isFirst cs).bind (fun more rest => ?_)
    rintro ⟨⟨joint, rfl, hjoint⟩, hahead⟩
    split at hjoint
    · next hmore =>
      rw [if_pos hmore]
      obtain ⟨left, rfl⟩ := hahead hmore
      refine (leaves_key left).bind (fun k rest => ?_)
      rintro ⟨spelt, hspelt, hkey, hk⟩
      rw [hkey]
      split
      · next f hf =>
        obtain ⟨hmem, hfk⟩ : f ∈ form.fields ∧ f.key = k :=
          ⟨List.mem_of_find?_eq_some hf, by simpa using List.find?_some hf⟩
        split
        · exact leaves_mismatch
        · refine (leaves_colon rest).bind (fun _ rest => ?_)
          rintro ⟨gap, hgap, rfl⟩
          refine (h.fields f hmem r rest).bind (fun r' rest => ?_)
          rintro ⟨gap', l, hgap', hl, rfl, hset⟩
          refine (ih false (k :: seen) r' rest).imp ?_
          rintro r'' left ⟨members, closing, hmembers, hclosing, rfl, hrest⟩
          refine ⟨.cons joint spelt (gap ++ ':' :: gap') l members, closing, ?_, hclosing, ?_, ?_⟩
          · exact ⟨hjoint, hspelt, ⟨gap, gap', hgap, hgap', rfl⟩, hl, hmembers⟩
          · simp [MemberLayouts.chars]
          · intro hplain look hlook
            rw [under_cons, ← hk hplain.1, ← hfk]
            exact hrest hplain.2.2 _ (hset look hlook)
      · next hf =>
        split
        · exact leaves_mismatch
        · refine (leaves_colon rest).bind (fun _ rest => ?_)
          rintro ⟨gap, hgap, rfl⟩
          refine (readsValue_skipValue rest).bind (fun _ rest => ?_)
          rintro ⟨gap', l, hgap', hl, rfl, -⟩
          refine (ih false seen r rest).imp ?_
          rintro r'' left ⟨members, closing, hmembers, hclosing, rfl, hrest⟩
          refine ⟨.cons joint spelt (gap ++ ':' :: gap') l members, closing, ?_, hclosing, ?_, ?_⟩
          · exact ⟨hjoint, hspelt, ⟨gap, gap', hgap, hgap', rfl⟩, hl, hmembers⟩
          · simp [MemberLayouts.chars]
          · intro hplain look hlook
            rw [under_cons, ← hk hplain.1]
            refine hrest hplain.2.2 _ (h.unknown k (fun f hmem => ?_) look r l hlook)
            simpa using List.find?_eq_none.mp hf f hmem
    · next hmore =>
      rw [if_neg hmore]
      obtain ⟨hclosing, left, rfl⟩ := hjoint
      split
      · exact leaves_mismatch
      · exact leaves_leave (leaves_pure ⟨.nil, joint, trivial, hclosing, rfl, fun _ look hlook => hlook⟩)

theorem leaves_values {fields : List (RecordField ρ)} (h : ∀ f ∈ fields, ∀ r, ReadsValue (f.read r))
    (isFirst : Bool) (r : ρ) (cs : List Char) :
    Leaves (RecordForm.values fields isFirst r) cs (fun _ rest =>
      ∃ items closing, ItemLayouts.WellFormed isFirst items ∧ IsGap closing ∧
        cs = items.chars ++ (closing ++ ']' :: rest)) := by
  induction fields generalizing isFirst r cs with
  | nil =>
    refine leaves_peekToken? (fun gap rest ahead hgap hcs hahead => ?_)
    split
    · obtain ⟨rest, rfl⟩ := List.head?_eq_some_iff.mp hahead
      exact leaves_leave (leaves_pure ⟨.nil, gap, trivial, hgap, hcs⟩)
    · obtain ⟨rest, rfl⟩ := List.head?_eq_some_iff.mp hahead
      exact leaves_advance (leaves_peekToken? (fun _ _ _ _ _ _ => leaves_refuseAhead))
    · exact leaves_refuseAhead
  | cons f fields ih =>
    refine (leaves_moreItems isFirst cs).bind (fun more rest => ?_)
    rintro ⟨joint, rfl, hjoint⟩
    split at hjoint
    · next hmore =>
      rw [if_pos hmore]
      refine (h f List.mem_cons_self r rest).bind (fun r' rest => ?_)
      rintro ⟨gap, l, hgap, hl, rfl, -⟩
      refine (ih (fun f hf => h f (List.mem_cons_of_mem _ hf)) false r' rest).imp ?_
      rintro _ left ⟨items, closing, hitems, hclosing, rfl⟩
      refine ⟨.cons (joint ++ gap) l items, closing, ?_, hclosing, by simp [ItemLayouts.chars]⟩
      exact ⟨hjoint.append_gap hgap, hl, hitems⟩
    · next hmore =>
      rw [if_neg hmore]
      obtain ⟨hclosing, left, rfl⟩ := hjoint
      split
      · exact leaves_mismatch
      · exact leaves_leave (leaves_pure ⟨.nil, joint, trivial, hclosing, rfl⟩)

/-- What is set goes with the members of a record that is written as an object. -/
theorem RecordForm.Tracks.record (h : form.Tracks I) : Reads (fun r l => l.PlainKeys →
    l.isList = true ∨ I (fun key => (l.member? key).map PlacedMember.value) r) (record form) := by
  intro cs
  refine leaves_peekToken? (fun gap rest ahead hgap hcs hahead => ?_)
  rw [hcs]
  split
  · exact leaves_refuseAhead
  · obtain ⟨rest, rfl⟩ := List.head?_eq_some_iff.mp hahead
    have hfields : ∀ f ∈ form.fields, ∀ r, ReadsValue (f.read r) :=
      fun f hf r => (h.fields f hf r).readsValue
    refine leaves_enter ((leaves_values hfields true form.empty rest).imp ?_)
    rintro r left ⟨items, closing, hitems, hclosing, rfl⟩
    exact ⟨gap, .list items closing, hgap, ⟨hitems, hclosing⟩, by simp [Layout.chars], fun _ => .inl rfl⟩
  · obtain ⟨rest, rfl⟩ := List.head?_eq_some_iff.mp hahead
    refine leaves_enter (leaves_get (fun c => (h.members c.size true [] form.empty rest).imp ?_))
    rintro r left ⟨members, closing, hmembers, hclosing, rfl, htracks⟩
    refine ⟨gap, .object members closing, hgap, ⟨hmembers, hclosing⟩, by simp [Layout.chars],
      fun hplain => .inr ?_⟩
    have hunder : (fun key => ((Layout.object members closing).member? key).map PlacedMember.value) =
        under members (fun _ => none) := by
      funext key
      simp [Layout.member?, under, Function.comp_def]
    rw [hunder]
    exact htracks hplain _ h.empty
  · exact leaves_refuseValue

theorem ReadsValue.of {key : String} {read : Reader α} {set : ρ → α → ρ} (h : ReadsValue read) (r : ρ) :
    ReadsValue ((RecordField.of key read set).read r) := h.image (set r)

theorem ReadsValue.needed {key : String} {read : Reader α} {set : ρ → α → ρ} (h : ReadsValue read) (r : ρ) :
    ReadsValue ((RecordField.needed key read set).read r) := h.image (set r)

/-- Whatever fields set, a record with fields that read over values reads over one. -/
theorem readsValue_record (h : ∀ f ∈ form.fields, ∀ r, ReadsValue (f.read r)) : ReadsValue (record form) := by
  have htracks : form.Tracks (fun _ _ => True) :=
    ⟨trivial, fun f hf r => Reads.imp (h f hf r) (fun _ _ _ _ _ => trivial), fun _ _ _ _ _ _ => trivial⟩
  exact htracks.record.readsValue

end

def pick (options : List (String × α)) (s : String) : Reader α :=
  match options.lookup s with
  | some a => pure a
  | none => mismatch

/-- Whether there is such an option is seen from the word alone. -/
theorem leaves_pick (options : List (String × α)) (s : String) (cs : List Char) :
    Leaves (pick options s) cs (fun _ rest => rest = cs) := by
  unfold pick
  split
  · exact leaves_pure rfl
  · exact leaves_mismatch

theorem readsValue_choice (options : List (String × α)) : ReadsValue (choice options) := by
  intro cs
  refine leaves_peekToken? (fun gap rest ahead hgap hcs hahead => ?_)
  rw [hcs]
  split
  · obtain ⟨rest, rfl⟩ := List.head?_eq_some_iff.mp hahead
    refine leaves_advance ((leaves_stringBody rest).bind (fun s left => ?_))
    rintro ⟨spelling, hspelling, rfl, -⟩
    refine (leaves_pick options s left).imp ?_
    rintro a _ rfl
    exact ⟨gap, .scalar ('"' :: (spelling ++ ['"'])), hgap, .string hspelling,
      by simp [Layout.chars], trivial⟩
  · obtain ⟨rest, rfl⟩ := List.head?_eq_some_iff.mp hahead
    refine leaves_enter (leaves_peekToken? (fun gap₁ rest₁ ahead₁ hgap₁ hrest hahead₁ => ?_))
    dsimp only
    split
    · obtain ⟨rest₁, rfl⟩ := List.head?_eq_some_iff.mp hahead₁
      refine leaves_advance ((leaves_stringBody rest₁).bind (fun s left => ?_))
      rintro ⟨spelling, hspelling, rfl, -⟩
      refine (leaves_pick options s left).bind ?_
      rintro a _ rfl
      refine (leaves_colon _).bind (fun _ rest₂ => ?_)
      rintro ⟨gap₂, hgap₂, rfl⟩
      refine leaves_peekToken? (fun gap₃ rest₃ ahead₃ hgap₃ hrest₃ hahead₃ => ?_)
      split
      · obtain ⟨rest₃, rfl⟩ := List.head?_eq_some_iff.mp hahead₃
        refine leaves_advance ((leaves_word _ rest₃).bind (fun _ rest₄ hrest₄ => ?_))
        refine leaves_peekToken? (fun gap₅ rest₅ ahead₅ hgap₅ hrest₅ hahead₅ => ?_)
        split
        · obtain ⟨rest₅, rfl⟩ := List.head?_eq_some_iff.mp hahead₅
          refine leaves_leave (leaves_pure ?_)
          let member : MemberLayouts :=
            .cons gap₁ (String.ofList spelling) (gap₂ ++ ':' :: gap₃) (.scalar ('n' :: "ull".toList)) .nil
          have hmember : member.WellFormed true :=
            ⟨hgap₁, by simpa using hspelling, ⟨gap₂, gap₃, hgap₂, hgap₃, rfl⟩, isToken_null, trivial⟩
          refine ⟨gap, .object member gap₅, hgap, ⟨hmember, hgap₅⟩, ?_, trivial⟩
          simp [member, Layout.chars, MemberLayouts.chars, quotedKey, hrest, hrest₃, hrest₄, hrest₅]
        · exact leaves_refuseHere
      · exact leaves_bind_of_gives gives_refuseValue
      · exact leaves_bind_of_gives gives_refuseAhead
    · exact leaves_bind_of_gives gives_refuseAhead
  · exact leaves_refuseAhead

/-- Only separators are left at the end. -/
theorem leaves_finish (cs : List Char) : Leaves finish cs (fun _ _ => IsGap cs) := by
  refine leaves_peekToken? (fun gap rest ahead hgap hcs hahead => ?_)
  split
  · obtain rfl := List.head?_eq_none_iff.mp hahead
    rw [hcs, List.append_nil]
    exact leaves_pure hgap
  · exact leaves_refuseAhead

theorem Reads.run {P : α → Layout → Prop} {read : Reader α} (h : Reads P read) {text : String}
    {rounding : NumberRounding} {a : α} (hrun : run read text rounding = .ok a) :
    ∃ t : TextLayout, t.WellFormed ∧ t.chars = text.toList ∧ P a t.value := by
  have hall : Leaves (do let a ← read; finish; pure a) text.toList
      (fun a _ => ∃ t : TextLayout, t.WellFormed ∧ t.chars = text.toList ∧ P a t.value) := by
    refine (h text.toList).bind (fun a rest => ?_)
    rintro ⟨lead, l, hlead, hl, hchars, ha⟩
    refine (leaves_finish rest).bind (fun _ _ htrail => leaves_pure ?_)
    exact ⟨⟨lead, l, rest⟩, ⟨hlead, hl, htrail⟩, hchars.symm, ha⟩
  rw [Reader.run] at hrun
  split at hrun
  · next a' c hread =>
    cases hrun
    exact hall _ a c rfl hread
  · cases hrun

end ProviderSdk.Json.Reader
