import ProviderSdk.Disk.Tree

/-!
# Actions on disks

What an action on a disk comes to, step by step.
-/

namespace ProviderSdk.OnDisk

variable {ε ε' α β : Type}

theorem run_bind (action : OnDisk ε α) (f : α → OnDisk ε β) (d : Disk) :
    (action >>= f).run d = match action.run d with
      | (.ok a, between) => (f a).run between
      | (.error e, between) => (.error e, between) := by
  change (ExceptT.bindCont f (action.run d).1) (action.run d).2 = _
  generalize action.run d = result
  obtain ⟨_ | _, _⟩ := result <;> rfl

/-- Two actions in sequence succeed if the second does where the first has led. -/
theorem run_bind_eq_ok {action : OnDisk ε α} {f : α → OnDisk ε β} {d d' : Disk} {b : β} :
    (action >>= f).run d = (.ok b, d') ↔
      ∃ a between, action.run d = (.ok a, between) ∧ (f a).run between = (.ok b, d') := by
  rw [run_bind]
  generalize action.run d = result
  obtain ⟨_ | a, between⟩ := result
  · constructor
    · intro h
      cases h
    · rintro ⟨_, _, h, _⟩
      cases h
  · constructor
    · exact fun h => ⟨a, between, rfl, h⟩
    · rintro ⟨_, _, h, h'⟩
      cases h
      exact h'

@[simp] theorem run_look (f : Disk → OnDisk ε α) (d : Disk) : (getThe Disk >>= f).run d = (f d).run d := rfl

@[simp] theorem run_change (f : Disk → Except DiskError Disk) (wrap : DiskError → ε) (d : Disk) :
    (change f wrap).run d = match f d with
      | .ok d' => (.ok (), d')
      | .error e => (.error (wrap e), d) := by
  cases h : f d <;> simp only [change, run_look, h] <;> rfl

theorem run_mapError (f : ε → ε') (action : OnDisk ε α) (d : Disk) :
    (mapError f action).run d = ((action.run d).1.mapError f, (action.run d).2) := rfl

theorem run_change_eq_ok {f : Disk → Except DiskError Disk} {wrap : DiskError → ε} {d d' : Disk} {u : Unit} :
    (change f wrap).run d = (.ok u, d') ↔ f d = .ok d' := by
  rw [run_change]
  constructor
  · intro h
    cases hf : f d with
    | ok between =>
      rw [hf] at h
      cases h
      rfl
    | error e =>
      rw [hf] at h
      cases h
  · intro h
    rw [h]

theorem run_mapError_eq_ok {f : ε → ε'} {action : OnDisk ε α} {d d' : Disk} {a : α} :
    (mapError f action).run d = (.ok a, d') ↔ action.run d = (.ok a, d') := by
  rw [run_mapError]
  generalize action.run d = result
  obtain ⟨_ | a, between⟩ := result
  · constructor <;> intro h <;> cases h
  · constructor <;> intro h <;> cases h <;> rfl

end ProviderSdk.OnDisk
