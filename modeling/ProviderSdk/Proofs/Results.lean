import Mathlib.Data.List.Forall2

/-!
# Results

When a chain of steps, each of which may fail, succeeds and when it fails, and which errors it can fail with.
-/

namespace ProviderSdk

variable {ε α β : Type}

theorem bind_eq_ok {r : Except ε α} {f : α → Except ε β} {b : β} :
    (r >>= f) = .ok b ↔ ∃ a, r = .ok a ∧ f a = .ok b := by
  cases r <;> simp [bind, Except.bind]

theorem bind_eq_error {r : Except ε α} {f : α → Except ε β} {e : ε} :
    (r >>= f) = .error e ↔ r = .error e ∨ ∃ a, r = .ok a ∧ f a = .error e := by
  cases r <;> simp [bind, Except.bind]

theorem bind_pure_eq_error {r : Except ε α} {f : α → β} {e : ε} :
    (r >>= fun a => pure (f a)) = .error e ↔ r = .error e := by
  cases r <;> simp [bind, Except.bind, pure, Except.pure]

theorem mapError_eq_ok {ε' : Type} {r : Except ε α} {f : ε → ε'} {a : α} :
    r.mapError f = .ok a ↔ r = .ok a := by
  cases r <;> simp [Except.mapError]

theorem exists_ok_of_toBool {r : Except ε α} (h : r.toBool = true) : ∃ a, r = .ok a := by
  cases r with
  | error e => cases h
  | ok a => exact ⟨a, rfl⟩

/-- A result has a value if something could be checked of it. -/
theorem exists_ok_of_any {r : Except ε α} {holds : α → Bool} (h : r.toOption.any holds = true) :
    ∃ a, r = .ok a ∧ holds a = true := by
  cases r with
  | error e => cases h
  | ok a => exact ⟨a, rfl, h⟩

/-- A step for each of several values succeeds if all do. -/
theorem forall₂_of_mapM_eq_ok {f : α → Except ε β} {items : List α} {results : List β}
    (h : items.mapM f = .ok results) : List.Forall₂ (fun a b => f a = .ok b) items results := by
  induction items generalizing results with
  | nil =>
    cases h
    exact .nil
  | cons a rest ih =>
    rw [List.mapM_cons] at h
    obtain ⟨b, hb, h⟩ := bind_eq_ok.mp h
    obtain ⟨bs, hbs, h⟩ := bind_eq_ok.mp h
    cases h
    exact .cons hb (ih hbs)

theorem exists_of_forall₂_of_mem {R : α → β → Prop} {as : List α} {bs : List β} (h : List.Forall₂ R as bs)
    {b : β} (hb : b ∈ bs) : ∃ a ∈ as, R a b := by
  induction h with
  | nil => simp at hb
  | @cons a _ _ _ hfirst _ ih =>
    rcases List.mem_cons.mp hb with rfl | hb
    · exact ⟨a, List.mem_cons_self, hfirst⟩
    · obtain ⟨a', ha', hR⟩ := ih hb
      exact ⟨a', List.mem_cons_of_mem a ha', hR⟩

/-- What holds of any two values in one list, in their order, holds in another way of those that
correspond to them. -/
theorem pairwise_of_forall₂ {R : α → β → Prop} {S : α → α → Prop} {T : β → β → Prop} {as : List α}
    {bs : List β} (h : List.Forall₂ R as bs) (hpairs : ∀ a b a' b', R a b → R a' b' → S a a' → T b b')
    (has : as.Pairwise S) :
    bs.Pairwise T := by
  induction h with
  | nil => exact .nil
  | cons hfirst hrest ih =>
    obtain ⟨hS, hpairwise⟩ := List.pairwise_cons.mp has
    refine List.pairwise_cons.mpr ⟨fun b' hb' => ?_, ih hpairwise⟩
    obtain ⟨a', ha', hR⟩ := exists_of_forall₂_of_mem hrest hb'
    exact hpairs _ _ _ _ hfirst hR (hS a' ha')

/-- If there is a third value for any two that correspond, there is a third list for two that correspond. -/
theorem exists_forall₂_between {γ : Type} {R : α → β → Prop} {S : α → γ → Prop} {T : β → γ → Prop}
    {as : List α} {bs : List β} (h : List.Forall₂ R as bs) (hbetween : ∀ a b, R a b → ∃ c, S a c ∧ T b c) :
    ∃ cs, List.Forall₂ S as cs ∧ List.Forall₂ T bs cs := by
  induction h with
  | nil => exact ⟨[], .nil, .nil⟩
  | cons hfirst _ ih =>
    obtain ⟨c, hS, hT⟩ := hbetween _ _ hfirst
    obtain ⟨cs, hSs, hTs⟩ := ih
    exact ⟨c :: cs, .cons hS hSs, .cons hT hTs⟩

/-- A step for each of several values succeeds with results that each step has. -/
theorem mapM_eq_ok_of_forall₂ {f : α → Except ε β} {items : List α} {results : List β}
    (h : List.Forall₂ (fun a b => f a = .ok b) items results) : items.mapM f = .ok results := by
  induction h with
  | nil => rfl
  | cons hfirst _ ih =>
    rw [List.mapM_cons, hfirst, ih]
    rfl

theorem exists_of_mem_of_mapM_eq_ok {f : α → Except ε β} {items : List α} {results : List β}
    (h : items.mapM f = .ok results) {b : β} (hb : b ∈ results) : ∃ a ∈ items, f a = .ok b :=
  exists_of_forall₂_of_mem (forall₂_of_mapM_eq_ok h) hb

/-- Two results fail alike, or both succeed with values that are related. -/
inductive Corresponding (R : α → β → Prop) : Except ε α → Except ε β → Prop where
  | fails {e} : Corresponding R (.error e) (.error e)
  | succeeds {a b} (h : R a b) : Corresponding R (.ok a) (.ok b)

theorem Corresponding.bind {γ δ : Type} {R : α → β → Prop} {S : γ → δ → Prop} {r : Except ε α}
    {r' : Except ε β} {f : α → Except ε γ} {g : β → Except ε δ} (h : Corresponding R r r')
    (hf : ∀ a b, R a b → Corresponding S (f a) (g b)) : Corresponding S (r >>= f) (r' >>= g) := by
  cases h with
  | fails => exact .fails
  | succeeds h => exact hf _ _ h

theorem Corresponding.mapError {ε' : Type} {R : α → β → Prop} {r : Except ε α} {r' : Except ε β}
    (h : Corresponding R r r') (f : ε → ε') : Corresponding R (r.mapError f) (r'.mapError f) := by
  cases h with
  | fails => exact .fails
  | succeeds h => exact .succeeds h

/-- Steps that keep states related, taken one after the other from related states, correspond. -/
theorem Corresponding.foldlM {σ τ : Type} {R : σ → τ → Prop} {S : α → β → Prop} {f : σ → α → Except ε σ}
    {g : τ → β → Except ε τ} (hstep : ∀ s t a b, R s t → S a b → Corresponding R (f s a) (g t b))
    {as : List α}
    {bs : List β} (h : List.Forall₂ S as bs) {s : σ} {t : τ} (hst : R s t) :
    Corresponding R (as.foldlM f s) (bs.foldlM g t) := by
  induction h generalizing s t with
  | nil => exact .succeeds hst
  | cons hab _ ih =>
    rw [List.foldlM_cons, List.foldlM_cons]
    exact (hstep s t _ _ hst hab).bind (fun _ _ => ih)

def errorOf? : Except ε α → Option ε
  | .error e => some e
  | .ok _ => none

/-- Two steps fail as the first that does, where the error of the second does not depend on what the
first gives. -/
theorem errorOf?_bind {r : Except ε α} {f : α → Except ε β} {e? : Option ε} (h : ∀ a, errorOf? (f a) = e?) :
    errorOf? (r >>= f) = (errorOf? r).or e? := by
  cases r with
  | error e => rfl
  | ok a => exact h a

theorem errorOf?_bind_pure (r : Except ε α) (f : α → β) :
    errorOf? (r >>= fun a => pure (f a)) = errorOf? r := by
  cases r <;> rfl

def FailsWith (P : ε → Prop) (r : Except ε α) : Prop := ∀ e, r = .error e → P e

variable {P : ε → Prop}

theorem FailsWith.ok (a : α) : FailsWith P (.ok a) := by
  intro e h
  cases h

theorem FailsWith.pure (a : α) : FailsWith P (Pure.pure a : Except ε α) := FailsWith.ok a

theorem FailsWith.bind {r : Except ε α} {f : α → Except ε β} (hr : FailsWith P r)
    (hf : ∀ a, r = .ok a → FailsWith P (f a)) : FailsWith P (r >>= f) := by
  intro e h
  rcases bind_eq_error.mp h with h | ⟨a, ha, h⟩
  · exact hr e h
  · exact hf a ha e h

theorem FailsWith.mapM {f : α → Except ε β} {items : List α} (h : ∀ a ∈ items, FailsWith P (f a)) :
    FailsWith P (items.mapM f) := by
  induction items with
  | nil =>
    rw [List.mapM_nil]
    exact FailsWith.pure []
  | cons a rest ih =>
    rw [List.mapM_cons]
    refine FailsWith.bind (h a List.mem_cons_self) (fun b _ => ?_)
    refine FailsWith.bind (ih (fun a' ha' => h a' (List.mem_cons_of_mem _ ha'))) (fun bs _ => ?_)
    exact FailsWith.pure (b :: bs)

end ProviderSdk
