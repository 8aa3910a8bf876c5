import ProviderSdk.Proofs.Disk.Confinement
import ProviderSdk.Proofs.Plan.Writing

/-!
# Plans that stay beneath their root

Whether or not a plan could be written, what changed on the disk lies where its entries lead, apart
from directories on the way there. If all paths of a plan are confined, nothing changes outside of
the output directory but that the directories that lead to it may have been made.
-/

namespace ProviderSdk

namespace OnDisk

variable {ε α β : Type} {d : Disk} {made written : List String → Prop}

/-- Two actions in sequence change what each of them may change, also if the first stops half-way. -/
theorem changesOnly_bind {action : OnDisk ε α} {f : α → OnDisk ε β}
    (h : d.ChangesOnly made written (action.run d).2)
    (hf : ∀ a between, d.ChangesOnly made written between →
      between.ChangesOnly made written ((f a).run between).2) :
    d.ChangesOnly made written ((action >>= f).run d).2 := by
  rw [run_bind]
  generalize action.run d = result at h
  obtain ⟨_ | a, between⟩ := result
  · exact h
  · exact h.trans (hf a between h)

end OnDisk

namespace Plan

variable {p : Plan} {root : Path} {d : Disk} {e : PlanEntry}

theorem changesOnly_makeParents (target : Path) (hd : d.Sound) :
    d.ChangesOnly (d.Passes target) (fun _ => False) ((makeParents target).run d).2 := by
  unfold makeParents
  split
  · exact .refl hd
  · next parent hparent =>
    rw [OnDisk.run_mapError]
    exact (OnDisk.changesOnly_makeDirectories parent hd).mono
      (fun _ => Disk.Passes.of_parent? hparent) (fun _ => id)

/-- A change of what stands at a path, or none. -/
theorem changesOnly_change {made : List String → Prop} {f : Disk → Except DiskError Disk}
    {wrap : DiskError → WriteError} {here : List String} (hd : d.Sound)
    (hf : ∀ d', f d = .ok d' → ∃ what, d.Puts here what d') :
    d.ChangesOnly made (fun place => place = here) ((OnDisk.change f wrap).run d).2 := by
  rw [OnDisk.run_change]
  cases hresult : f d with
  | error e => exact .refl hd
  | ok d' =>
    obtain ⟨what, hput⟩ := hf d' hresult
    exact hput.changesOnly hd

/-- Writing an entry changes what stands at its target, and makes directories on the way there. -/
theorem changesOnly_writeEntry (root : Path) (e : PlanEntry) (hd : d.Sound) :
    d.ChangesOnly (d.Passes (root.join e.path)) (fun place => place = e.target d root)
      ((writeEntry root e).run d).2 := by
  have hparents := (changesOnly_makeParents (root.join e.path) hd).mono (fun _ => id)
    (fun place h => (h.elim : place = e.target d root))
  cases e with
  | file f =>
    refine OnDisk.changesOnly_bind hparents (fun _ between hbetween => ?_)
    refine changesOnly_change hbetween.sound (fun d' hwrite => ?_)
    have hput := Disk.writeBytes_ok hbetween.sound hwrite
    rw [Disk.place_congr hbetween.workingDirectory] at hput
    exact ⟨_, hput⟩
  | overlay o =>
    refine OnDisk.changesOnly_bind hparents (fun _ between hbetween => ?_)
    refine changesOnly_change hbetween.sound (fun d' hcopy => ?_)
    obtain ⟨_, _, hput⟩ := Disk.copy_ok hbetween.sound hcopy
    rw [Disk.place_congr hbetween.workingDirectory] at hput
    exact ⟨_, hput⟩

theorem changesOnly_forM_writeEntry {made written : List String → Prop} {entries : List PlanEntry}
    (hd : d.Sound) (hmade : ∀ e ∈ entries, ∀ place, d.Passes (root.join e.path) place → made place)
    (hwritten : ∀ e ∈ entries, written (e.target d root)) :
    d.ChangesOnly made written ((entries.forM (writeEntry root)).run d).2 := by
  induction entries generalizing d with
  | nil => exact .refl hd
  | cons e rest ih =>
    obtain ⟨hmadeFirst, hmadeRest⟩ := List.forall_mem_cons.mp hmade
    obtain ⟨hwrittenFirst, hwrittenRest⟩ := List.forall_mem_cons.mp hwritten
    have hfirst := (changesOnly_writeEntry root e hd).mono hmadeFirst (fun place h => h ▸ hwrittenFirst)
    refine OnDisk.changesOnly_bind hfirst (fun _ between hbetween => ih hbetween.sound ?_ ?_)
    · simpa only [Disk.passes_congr hbetween.workingDirectory] using hmadeRest
    · simpa only [PlanEntry.target, Disk.place_congr hbetween.workingDirectory] using hwrittenRest

/-- Whether or not a plan could be written, what changed stands where its entries lead, apart from
directories that their paths pass. -/
theorem changesOnly_write (p : Plan) (root : Path) (hd : d.Sound) :
    d.ChangesOnly (fun place => ∃ e ∈ p.entries, d.Passes (root.join e.path) place)
      (fun place => ∃ e ∈ p.entries, place = e.target d root) ((p.write root).run d).2 := by
  rw [write, OnDisk.run_look]
  split
  · exact .refl hd
  · have hentries : d.ChangesOnly (fun place => ∃ e ∈ p.entries, d.Passes (root.join e.path) place)
        (fun place => ∃ e ∈ p.entries, place = e.target d root)
        ((p.files.forM (writeFile root) >>= fun _ => p.overlays.forM (writeCopy root)).run d).2 := by
      rw [run_forM_writeEntry]
      exact changesOnly_forM_writeEntry hd (fun e he place h => ⟨e, he, h⟩) (fun e he => ⟨e, he, rfl⟩)
    have hpure := OnDisk.changesOnly_bind hentries (f := fun _ => pure p.written)
      (fun _ between hbetween => .refl hbetween.sound)
    rwa [bind_assoc] at hpure

def Confined (p : Plan) : Prop := ∀ e ∈ p.entries, e.path.Confined

/-- The confined plans are those all of whose entries lie beneath every output directory. -/
theorem confined_iff :
    p.Confined ↔ ∀ (d : Disk) (root : Path), d.Sound → ∀ e ∈ p.entries, d.place root <+: e.target d root := by
  simp only [Confined, Path.confined_iff, PlanEntry.target]
  exact ⟨fun h d root hd e he => h e he d root hd, fun h e he d root hd => h d root hd e he⟩

/-- Writing a confined plan changes nothing outside of the output directory, but that missing
directories that lead there are made. -/
theorem Confined.found_write (h : p.Confined) (root : Path) (hd : d.Sound) (place : List String) :
    ((p.write root).run d).2.found place = d.found place ∨ d.place root <+: place ∨
      (d.Passes root place ∧ d.found place = .nothing ∧
        ((p.write root).run d).2.found place = .directory) := by
  obtain hsame | ⟨e, he, rfl⟩ | ⟨⟨e, he, hpasses⟩, hchange⟩ := (changesOnly_write p root hd).found place
  · exact .inl hsame
  · exact .inr (.inl ((h e he).place_join d root))
  · obtain hroot | hbeneath := (h e he).passes_join hpasses
    · exact .inr (.inr ⟨hroot, hchange⟩)
    · exact .inr (.inl hbeneath)

end Plan

end ProviderSdk
