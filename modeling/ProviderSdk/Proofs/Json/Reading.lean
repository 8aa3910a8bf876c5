import ProviderSdk.Json.Record
import ProviderSdk.Proofs.Json.Members
import ProviderSdk.Proofs.Results

/-!
# What readers give

Whatever text is read, what a reader gives has the form that its parts impose: the members of a map
stand in the order of their keys, and a record is the empty one with what its fields have set.
-/

namespace ProviderSdk.Json.Reader

variable {α β ρ : Type} {P : α → Prop} {Q : β → Prop}

def Gives (P : α → Prop) (r : Reader α) : Prop := ∀ c a c', r c = .ok (a, c') → P a

theorem Gives.imp {P' : α → Prop} {r : Reader α} (h : Gives P r) (himp : ∀ a, P a → P' a) : Gives P' r :=
  fun c a c' hr => himp a (h c a c' hr)

theorem gives_true (r : Reader α) : Gives (fun _ => True) r := fun _ _ _ _ => trivial

theorem gives_pure {a : α} (h : P a) : Gives P (pure a : Reader α) := by
  intro c a' c' hr
  cases hr
  exact h

theorem gives_error (e : Cursor → ReadError) : Gives P (fun c => .error (e c)) := by
  intro c a c' hr
  cases hr

theorem gives_mismatch : Gives P mismatch := gives_error _

theorem gives_refuseHere : Gives P refuseHere := gives_error _

theorem gives_refuseAhead : Gives P refuseAhead := gives_error _

theorem Gives.bind {r : Reader α} {f : α → Reader β} (hr : Gives P r) (hf : ∀ a, P a → Gives Q (f a)) :
    Gives Q (r >>= f) := by
  intro c b c' h
  obtain ⟨⟨a, between⟩, ha, h⟩ := bind_eq_ok.mp h
  exact hf a (hr c a between ha) between b c' h

/-- What a reader gives depends on its last step. -/
theorem gives_bind (r : Reader α) {f : α → Reader β} (hf : ∀ a, Gives Q (f a)) : Gives Q (r >>= f) :=
  (gives_true r).bind (fun a _ => hf a)

theorem Gives.image {r : Reader α} {f : α → β} (hr : Gives P r) (hf : ∀ a, P a → Q (f a)) :
    Gives Q (f <$> r) := by
  rw [map_eq_pure_bind]
  exact hr.bind (fun a ha => gives_pure (hf a ha))

theorem gives_refuseValue : Gives P refuseValue := by
  have hread {γ δ : Type} (first : Reader γ) (second : Reader δ) :
      Gives P (first >>= fun _ => second >>= fun _ => mismatch) :=
    gives_bind _ (fun _ => gives_bind _ (fun _ => gives_mismatch))
  refine gives_bind _ (fun ahead => ?_)
  -- A broken word, string or number is refused as such, any other value for its form.
  split
  · exact hread _ _
  · exact hread _ _
  · exact hread _ _
  · exact hread _ _
  · exact hread _ _
  · exact gives_mismatch
  · exact gives_mismatch
  · split
    · exact gives_bind _ (fun _ => gives_mismatch)
    · exact gives_refuseAhead
  · exact gives_refuseAhead

theorem Gives.option {read : Reader α} (h : Gives P read) :
    Gives (fun value : Option α => ∀ a, value = some a → P a) (option read) := by
  refine gives_bind _ (fun ahead => ?_)
  split
  · refine gives_bind _ (fun _ => gives_bind _ (fun _ => gives_pure ?_))
    intro a ha
    cases ha
  · refine h.image (fun a ha a' heq => ?_)
    cases heq
    exact ha

theorem Gives.membersLoop {read : Reader α} (h : Gives P read) (fuel : Nat) (isFirst : Bool) :
    Gives (fun members => ∀ m ∈ members, P m.2) (membersLoop read fuel isFirst) := by
  induction fuel generalizing isFirst with
  | zero => exact gives_refuseHere
  | succ fuel ih =>
    refine gives_bind _ (fun more => ?_)
    split
    · refine gives_bind _ (fun key => gives_bind _ (fun _ => h.bind (fun a ha => ?_)))
      refine (ih false).bind (fun rest hrest => gives_pure ?_)
      intro m hm
      rcases List.mem_cons.mp hm with rfl | hm
      · exact ha
      · exact hrest m hm
    · refine gives_bind _ (fun _ => gives_pure ?_)
      simp

/-- The members of a map stand in the order of their keys. -/
theorem Gives.map {read : Reader α} (h : Gives P read) :
    Gives (fun members => Ascending members ∧ ∀ m ∈ members, P m.2) (map read) := by
  refine gives_bind _ (fun ahead => ?_)
  split
  · exact gives_refuseAhead
  · refine gives_bind _ (fun _ => gives_bind _ (fun c =>
      (h.membersLoop _ _).image (fun members hmembers => ?_)))
    exact ⟨ascending_sorted members, fun m hm => hmembers m (mem_of_mem_sorted hm)⟩
  · exact gives_refuseValue

def RecordField.Keeps (P : ρ → Prop) (f : RecordField ρ) : Prop := ∀ r, P r → Gives P (f.read r)

structure RecordForm.Keeps (P : ρ → Prop) (form : RecordForm ρ) : Prop where
  empty : P form.empty
  fields : ∀ f ∈ form.fields, f.Keeps P

variable {P : ρ → Prop} {form : RecordForm ρ} {key : String} {read : Reader α} {set : ρ → α → ρ}

/-- A field sets something that a property is about. -/
theorem Gives.keeps {Q : α → Prop} (hread : Gives Q read) (hset : ∀ r a, P r → Q a → P (set r a)) :
    (RecordField.of key read set).Keeps P :=
  fun r hr => hread.image (fun a ha => hset r a hr ha)

theorem keeps_of (hset : ∀ r a, P r → P (set r a)) : (RecordField.of key read set).Keeps P :=
  (gives_true read).keeps (fun r a hr _ => hset r a hr)

theorem keeps_needed (hset : ∀ r a, P r → P (set r a)) : (RecordField.needed key read set).Keeps P :=
  fun r hr => (gives_true read).image (fun a _ => hset r a hr)

theorem RecordForm.Keeps.members (h : form.Keeps P) (fuel : Nat) (isFirst : Bool) (seen : List String) {r : ρ}
    (hr : P r) : Gives P (form.members fuel isFirst seen r) := by
  induction fuel generalizing isFirst seen r with
  | zero => exact gives_refuseHere
  | succ fuel ih =>
    refine gives_bind _ (fun more => ?_)
    split
    · refine gives_bind _ (fun key => ?_)
      split
      · next f hfind =>
        split
        · exact gives_mismatch
        · refine gives_bind _ (fun _ => (h.fields f (List.mem_of_find?_eq_some hfind) r hr).bind
            (fun r hr => ?_))
          exact ih _ _ hr
      · split
        · exact gives_mismatch
        · exact gives_bind _ (fun _ => gives_bind _ (fun _ => ih _ _ hr))
    · split
      · exact gives_mismatch
      · exact gives_bind _ (fun _ => gives_pure hr)

theorem gives_values {fields : List (RecordField ρ)} (h : ∀ f ∈ fields, f.Keeps P) (isFirst : Bool) {r : ρ}
    (hr : P r) :
    Gives P (RecordForm.values fields isFirst r) := by
  induction fields generalizing isFirst r with
  | nil =>
    refine gives_bind _ (fun ahead => ?_)
    split
    · exact gives_bind _ (fun _ => gives_pure hr)
    · exact gives_bind _ (fun _ => gives_bind _ (fun _ => gives_refuseAhead))
    · exact gives_refuseAhead
  | cons f rest ih =>
    refine gives_bind _ (fun more => ?_)
    split
    · refine (h f List.mem_cons_self r hr).bind (fun r hr => ?_)
      exact ih (fun f hf => h f (List.mem_cons_of_mem _ hf)) _ hr
    · split
      · exact gives_mismatch
      · exact gives_bind _ (fun _ => gives_pure hr)

theorem RecordForm.Keeps.record (h : form.Keeps P) : Gives P (record form) := by
  refine gives_bind _ (fun ahead => ?_)
  split
  · exact gives_refuseAhead
  · exact gives_bind _ (fun _ => gives_values h.fields true h.empty)
  · exact gives_bind _ (fun _ => gives_bind _ (fun c => h.members c.size true [] h.empty))
  · exact gives_refuseValue

theorem Gives.run {P : α → Prop} {read : Reader α} (h : Gives P read) {text : String}
    {rounding : NumberRounding} {a : α} (hrun : run read text rounding = .ok a) : P a := by
  have hall : Gives P (do let a ← read; finish; pure a) :=
    h.bind (fun a ha => gives_bind _ (fun _ => gives_pure ha))
  rw [Reader.run] at hrun
  split at hrun
  · next a' c hread =>
    cases hrun
    exact hall _ a c hread
  · cases hrun

end ProviderSdk.Json.Reader
