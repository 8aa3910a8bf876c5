import Mathlib.Data.List.Pairwise
import ProviderSdk.Proofs.Disk.Writing
import ProviderSdk.Proofs.Plan.Additions

/-!
# Writing plans

What the files on a disk hold once a plan has been written: of the entries that lead to one place
the last decides. The paths of a plan are distinct as they are written, but different paths may lead
to one place, as `index.ts` and `./index.ts` do; so a copy may stand where a generated file was
written. Paths of names only never meet.
-/

namespace ProviderSdk

def PlanEntry.target (d : Disk) (root : Path) (e : PlanEntry) : List String := d.place (root.join e.path)

/-- What an entry brings to its target: a copy brings what its source holds when the target is empty. -/
def PlanEntry.brings (d : Disk) (root : Path) (files : List String → Option ByteArray) (e : PlanEntry) :
    Option ByteArray :=
  match e with
  | .file f => some f.content.toUTF8
  | .overlay o => Function.update files (e.target d root) (some .empty) (d.place o.source)

def PlanEntry.applied (d : Disk) (root : Path) (files : List String → Option ByteArray) (e : PlanEntry) :
    List String → Option ByteArray :=
  Function.update files (e.target d root) (e.brings d root files)

/-- The file stands on a disk, at its place below a root, with its text. -/
def PlannedFile.StandsOn (d : Disk) (root : Path) (f : PlannedFile) : Prop :=
  d.fileAt (d.place (root.join f.path)) = some f.content.toUTF8

namespace Plan

variable {p : Plan} {root : Path} {d d' : Disk} {e : PlanEntry} {u : Unit}

/-- What the files on a disk are to hold once entries are written, one by one. -/
def outcome (entries : List PlanEntry) (d : Disk) (root : Path) : List String → Option ByteArray :=
  entries.foldl (PlanEntry.applied d root) d.fileAt

def writeEntry (root : Path) : PlanEntry → OnDisk WriteError Unit
  | .file f => writeFile root f
  | .overlay o => writeCopy root o

theorem keepsFiles_makeParents {target : Path} (hd : d.Sound) (h : (makeParents target).run d = (.ok u, d')) :
    d.KeepsFiles d' := by
  unfold makeParents at h
  split at h
  · cases h
    exact .refl hd
  · next parent _ =>
    rw [OnDisk.run_mapError_eq_ok] at h
    have hkeeps := OnDisk.keepsFiles_makeDirectories parent hd
    rwa [h] at hkeeps

theorem applied_congr (h : d'.workingDirectory = d.workingDirectory) (root : Path) :
    PlanEntry.applied d' root = PlanEntry.applied d root := by
  funext files e
  simp only [PlanEntry.applied, PlanEntry.brings, PlanEntry.target, Disk.place_congr h]

/-- An entry that is written changes the file at its target only. -/
theorem follows_writeEntry (hd : d.Sound) (h : (writeEntry root e).run d = (.ok u, d')) :
    d.Follows (e.applied d root d.fileAt) d' := by
  cases e with
  | file f =>
    obtain ⟨_, between, hparents, hwrite⟩ := OnDisk.run_bind_eq_ok.mp h
    have hkeeps := keepsFiles_makeParents hd hparents
    have hput := Disk.writeBytes_ok hkeeps.sound (OnDisk.run_change_eq_ok.mp hwrite)
    have hfollows := hkeeps.trans (hput.follows hkeeps.sound)
    rw [hkeeps.files, Disk.place_congr hkeeps.workingDirectory] at hfollows
    exact hfollows
  | overlay o =>
    obtain ⟨_, between, hparents, hwrite⟩ := OnDisk.run_bind_eq_ok.mp h
    have hkeeps := keepsFiles_makeParents hd hparents
    obtain ⟨bytes, hbytes, hput⟩ := Disk.copy_ok hkeeps.sound (OnDisk.run_change_eq_ok.mp hwrite)
    have hfollows := hkeeps.trans (hput.follows hkeeps.sound)
    rw [hkeeps.files, Disk.place_congr hkeeps.workingDirectory] at hfollows hbytes
    rw [PlanEntry.applied, PlanEntry.brings]
    exact hbytes ▸ hfollows

theorem follows_forM_writeEntry {entries : List PlanEntry} (hd : d.Sound)
    (h : (entries.forM (writeEntry root)).run d = (.ok u, d')) :
    d.Follows (outcome entries d root) d' := by
  induction entries generalizing d with
  | nil =>
    cases h
    exact .refl hd
  | cons e rest ih =>
    obtain ⟨_, between, hfirst, hrest⟩ := OnDisk.run_bind_eq_ok.mp h
    have hfollows := follows_writeEntry hd hfirst
    have hrest := ih hfollows.sound hrest
    rw [outcome, hfollows.files, applied_congr hfollows.workingDirectory] at hrest
    exact hfollows.trans hrest

/-- Generated files and copies are written one after the other, as the entries of the plan. -/
theorem run_forM_writeEntry (p : Plan) (root : Path) (d : Disk) :
    ((p.files.forM (writeFile root) >>= fun _ => p.overlays.forM (writeCopy root)).run d) =
      (p.entries.forM (writeEntry root)).run d := by
  simp only [List.forM_eq_forM, entries, List.forM_append, List.forM_map]
  rfl

/-- After a plan has been written all files hold what the plan brings, entry by entry. -/
theorem follows_write {written : Written} (hd : d.Sound) (h : (p.write root).run d = (.ok written, d')) :
    d.Follows (outcome p.entries d root) d' := by
  rw [write, OnDisk.run_look] at h
  split at h
  · cases h
  · obtain ⟨u, between, hfiles, h⟩ := OnDisk.run_bind_eq_ok.mp h
    obtain ⟨u', _, hoverlays, h⟩ := OnDisk.run_bind_eq_ok.mp h
    cases h
    refine follows_forM_writeEntry hd (u := u') ?_
    rw [← run_forM_writeEntry]
    exact OnDisk.run_bind_eq_ok.mpr ⟨u, between, hfiles, hoverlays⟩

/-- An entry decides what a place holds: it leads there, and none that is written later does. -/
def Decides (p : Plan) (d : Disk) (root : Path) (place : List String) (before : List PlanEntry)
    (e : PlanEntry) :
    Prop :=
  ∃ after, p.entries = before ++ e :: after ∧ e.target d root = place ∧
    ∀ later ∈ after, later.target d root ≠ place

theorem foldl_applied_of_ne {entries : List PlanEntry} {place : List String}
    (files : List String → Option ByteArray) (h : ∀ e ∈ entries, e.target d root ≠ place) :
    entries.foldl (PlanEntry.applied d root) files place = files place := by
  induction entries generalizing files with
  | nil => rfl
  | cons e rest ih =>
    rw [List.foldl_cons, ih _ (fun later hlater => h later (List.mem_cons_of_mem _ hlater)),
      PlanEntry.applied, Function.update_of_ne (h e List.mem_cons_self).symm]

theorem Decides.outcome_eq {place : List String} {before : List PlanEntry}
    (h : p.Decides d root place before e) :
    outcome p.entries d root place = e.brings d root (outcome before d root) := by
  obtain ⟨after, hentries, rfl, hafter⟩ := h
  rw [outcome, hentries, List.foldl_append, List.foldl_cons, foldl_applied_of_ne _ hafter]
  exact Function.update_self _ _ _

/-- To each place that an entry leads to there is an entry that decides. -/
theorem exists_decides (he : e ∈ p.entries) : ∃ before e', p.Decides d root (e.target d root) before e' := by
  have hlast (entries : List PlanEntry) (place : List String) (h : ∃ e ∈ entries, e.target d root = place) :
      ∃ before e' after, entries = before ++ e' :: after ∧ e'.target d root = place ∧
        ∀ later ∈ after, later.target d root ≠ place := by
    induction entries with
    | nil => simp at h
    | cons first rest ih =>
      -- The first entry decides only if no other leads to the place.
      by_cases hrest : ∃ e ∈ rest, e.target d root = place
      · obtain ⟨before, e', after, rfl, hdecides⟩ := ih hrest
        exact ⟨first :: before, e', after, rfl, hdecides⟩
      · obtain ⟨e, hmem, htarget⟩ := h
        obtain rfl | hmem := List.mem_cons.mp hmem
        · exact ⟨[], e, rest, rfl, htarget, fun later hlater heq => hrest ⟨later, hlater, heq⟩⟩
        · exact absurd ⟨e, hmem, htarget⟩ hrest
  obtain ⟨before, e', after, hdecides⟩ := hlast p.entries _ ⟨e, he, rfl⟩
  exact ⟨before, e', after, hdecides⟩

theorem Decides.target_eq {place : List String} {before : List PlanEntry}
    (h : p.Decides d root place before e) :
    e.target d root = place := by
  obtain ⟨_, _, htarget, _⟩ := h
  exact htarget

theorem Decides.mem {place : List String} {before : List PlanEntry} (h : p.Decides d root place before e) :
    e ∈ p.entries := by
  obtain ⟨after, hentries, _⟩ := h
  simp [hentries]

theorem target_of_isPlain (h : e.path.IsPlain) : e.target d root = d.place root ++ e.path.names := by
  rw [PlanEntry.target, Disk.place_join d root h.isAbsolute, h.foldl_segments]

/-- Different entries whose paths have names only lead to different places. -/
theorem Distinct.eq_of_target {e' : PlanEntry} (hdistinct : p.Distinct)
    (hplain : ∀ e ∈ p.entries, e.path.IsPlain) (he : e ∈ p.entries) (he' : e' ∈ p.entries)
    (htarget : e.target d root = e'.target d root) : e = e' := by
  apply Classical.byContradiction
  intro hne
  have hsymm : Std.Symm (fun e e' : PlanEntry => e.path.same e'.path = false) :=
    ⟨fun a b hab => by rwa [Path.same_comm]⟩
  have hdiffer : e.path.same e'.path = false := List.Pairwise.forall hdistinct he he' hne
  rw [target_of_isPlain (hplain e he), target_of_isPlain (hplain e' he')] at htarget
  rw [(hplain e he).same (hplain e' he') (List.append_cancel_left htarget)] at hdiffer
  cases hdiffer

/-- After a plan has been written, a generated file stands at its place exactly if the last entry
that leads there brings its text. So it does if no other entry leads there, and all generated files
do if all paths consist of names. -/
theorem write_standsOn_iff {calls : List PlanEntry} {written : Written} (hadded : calls.foldlM add {} = .ok p)
    (hd : d.Sound) (hwrite : (p.write root).run d = (.ok written, d')) :
    (∀ f ∈ p.files, ∃ before e, p.Decides d root ((PlanEntry.file f).target d root) before e ∧
        (f.StandsOn d' root ↔ e.brings d root (outcome before d root) = some f.content.toUTF8)) ∧
      (∀ f ∈ p.files, (∀ e ∈ p.entries, e.target d root = (PlanEntry.file f).target d root → e = .file f) →
        f.StandsOn d' root) ∧
      ((∀ e ∈ calls, e.path.IsPlain) → ∀ f ∈ p.files, f.StandsOn d' root) := by
  obtain ⟨hperm, hdistinct⟩ := foldlM_add_eq_ok hadded
  have hfollows := follows_write hd hwrite
  have hmem {f : PlannedFile} (hf : f ∈ p.files) : .file f ∈ p.entries := mem_entries.mpr (.inl ⟨f, hf, rfl⟩)
  have hstands {f : PlannedFile} {before : List PlanEntry} {e : PlanEntry}
      (h : p.Decides d root ((PlanEntry.file f).target d root) before e) :
      f.StandsOn d' root ↔ e.brings d root (outcome before d root) = some f.content.toUTF8 := by
    rw [PlannedFile.StandsOn, hfollows.files, Disk.place_congr hfollows.workingDirectory, ← h.outcome_eq]
    rfl
  have halone (f : PlannedFile) (hf : f ∈ p.files)
      (hother : ∀ e ∈ p.entries, e.target d root = (PlanEntry.file f).target d root → e = .file f) :
      f.StandsOn d' root := by
    obtain ⟨before, e, hdecides⟩ := exists_decides (hmem hf)
    obtain rfl := hother e hdecides.mem hdecides.target_eq
    exact (hstands hdecides).mpr rfl
  refine ⟨fun f hf => ?_, halone, fun hplain f hf => halone f hf (fun e he htarget => ?_)⟩
  · obtain ⟨before, e, hdecides⟩ := exists_decides (hmem hf)
    exact ⟨before, e, hdecides, hstands hdecides⟩
  · have hadded (e : PlanEntry) (he : e ∈ p.entries) : e ∈ calls := by
      simpa [entries] using hperm.mem_iff.mp he
    have hplain : ∀ e ∈ p.entries, e.path.IsPlain := fun e he => hplain e (hadded e he)
    exact (hdistinct List.Pairwise.nil).eq_of_target hplain he (hmem hf) htarget

def handDisk : Disk := ⟨.directory [("overlays", .directory [("hand.ts", .file "b".toUTF8)])], []⟩

def indexFile : PlannedFile := ⟨⟨"index.ts"⟩, "a"⟩

def handCopy (path : Path) : PlannedCopy := ⟨path, ⟨"overlays/hand.ts"⟩⟩

def handCalls (path : Path) : List PlanEntry := [.file indexFile, .overlay (handCopy path)]

/-- The plan that comes about if the path is not taken. -/
def handPlan (path : Path) : Plan := ⟨[indexFile], [handCopy path]⟩

theorem handDisk_sound : handDisk.Sound := by
  simp [handDisk, Disk.Sound, Disk.found, DiskNode.toFound]

theorem run_ok_of_toBool {α : Type} {action : OnDisk WriteError α} (h : (action.run d).1.toBool = true) :
    ∃ a d', action.run d = (.ok a, d') := by
  generalize action.run d = result at h ⊢
  obtain ⟨_ | a, d'⟩ := result
  · cases h
  · exact ⟨a, d', rfl⟩

theorem handPlan_standsOn :
    ∃ written d', ((handPlan ⟨"hand.ts"⟩).write ⟨"out"⟩).run handDisk = (.ok written, d') ∧
      ∀ f ∈ (handPlan ⟨"hand.ts"⟩).files, f.StandsOn d' ⟨"out"⟩ := by
  obtain ⟨written, d', hwrite⟩ :=
    @run_ok_of_toBool handDisk _ ((handPlan ⟨"hand.ts"⟩).write ⟨"out"⟩) (by decide +kernel)
  have hadded : (handCalls ⟨"hand.ts"⟩).foldlM add {} = .ok (handPlan ⟨"hand.ts"⟩) := rfl
  refine ⟨written, d', hwrite, (write_standsOn_iff hadded handDisk_sound hwrite).2.2 ?_⟩
  intro e he
  obtain rfl | rfl : e = .file indexFile ∨ e = .overlay (handCopy ⟨"hand.ts"⟩) := by
    simpa [handCalls] using he
  · exact fun c hc => ⟨"index.ts", List.mem_singleton.mp hc⟩
  · exact fun c hc => ⟨"hand.ts", List.mem_singleton.mp hc⟩

/-- A copy whose path starts at a dot is written over the generated file, though its source is
outside the output. -/
theorem handPlan_overwritten :
    (handCalls ⟨"./index.ts"⟩).foldlM add {} = .ok (handPlan ⟨"./index.ts"⟩) ∧
      (∀ e ∈ handCalls ⟨"./index.ts"⟩, e.path.isAbsolute = false) ∧
      (∀ o ∈ (handPlan ⟨"./index.ts"⟩).overlays, ¬ handDisk.place ⟨"out"⟩ <+: handDisk.place o.source) ∧
      ∃ written d', ((handPlan ⟨"./index.ts"⟩).write ⟨"out"⟩).run handDisk = (.ok written, d') ∧
        ∃ f ∈ (handPlan ⟨"./index.ts"⟩).files, ¬ f.StandsOn d' ⟨"out"⟩ := by
  obtain ⟨written, d', hwrite⟩ :=
    @run_ok_of_toBool handDisk _ ((handPlan ⟨"./index.ts"⟩).write ⟨"out"⟩) (by decide +kernel)
  have hfollows := follows_write handDisk_sound hwrite
  refine ⟨rfl, by decide +kernel, by decide +kernel, written, d', hwrite, indexFile,
    List.mem_singleton_self _, ?_⟩
  have hdecides : (handPlan ⟨"./index.ts"⟩).Decides handDisk ⟨"out"⟩
      ((PlanEntry.file indexFile).target handDisk ⟨"out"⟩) [.file indexFile]
        (.overlay (handCopy ⟨"./index.ts"⟩)) :=
    ⟨[], rfl, by decide +kernel, by simp⟩
  have hbrings : (PlanEntry.overlay (handCopy ⟨"./index.ts"⟩)).brings handDisk ⟨"out"⟩
      (outcome [.file indexFile] handDisk ⟨"out"⟩) = some "b".toUTF8 := by
    have hplace : handDisk.place (handCopy ⟨"./index.ts"⟩).source = ["overlays", "hand.ts"] := by
      decide +kernel
    have hcopy : ["overlays", "hand.ts"] ≠ (PlanEntry.overlay (handCopy ⟨"./index.ts"⟩)).target
        handDisk ⟨"out"⟩ := by
      decide +kernel
    have hfile : (PlanEntry.file indexFile).target handDisk ⟨"out"⟩ ≠ ["overlays", "hand.ts"] := by
      decide +kernel
    simp only [PlanEntry.brings, hplace, Function.update_of_ne hcopy]
    rw [outcome, foldl_applied_of_ne _ (by simpa using hfile)]
    rfl
  rw [PlannedFile.StandsOn, hfollows.files, Disk.place_congr hfollows.workingDirectory]
  intro hstands
  have hbytes := (hdecides.outcome_eq.trans hbrings).symm.trans hstands
  exact absurd (Option.some.inj hbytes) (by decide +kernel)

end Plan

end ProviderSdk
