import Mathlib.Data.List.Perm.Basic
import ProviderSdk.Operation.Generation
import ProviderSdk.Proofs.Library.HandWritten
import ProviderSdk.Proofs.Plan.Writing

/-!
# Dry runs

A dry run fails exactly if the run fails in planning, for the same reason, and leaves the disk as it
is. What it lists are the generated files; the hand-written files that the run copies are left out.
So it lists the paths that the run reports exactly if nothing is copied.
-/

namespace ProviderSdk

def SamePaths (paths others : List Path) : Prop :=
  ∀ path : Path, (∃ q ∈ paths, q.same path = true) ↔ ∃ q ∈ others, q.same path = true

theorem samePaths_append_iff {paths listed others : List Path} (hperm : listed.Perm paths)
    (hdiffer : ∀ other ∈ others, ∀ path ∈ listed, path.same other = false) :
    SamePaths listed (paths ++ others) ↔ others = [] := by
  constructor
  · intro h
    refine List.eq_nil_iff_forall_not_mem.mpr (fun other hother => ?_)
    obtain ⟨path, hpath, hsame⟩ := (h other).mpr ⟨other, List.mem_append_right _ hother, by simp [Path.same]⟩
    rw [hdiffer other hother path hpath] at hsame
    cases hsame
  · rintro rfl path
    simp only [List.append_nil, hperm.mem_iff]

namespace Plan

variable {plan : Plan}

theorem preview_perm (plan : Plan) : (plan.preview.map (·.path)).Perm plan.written.files :=
  (List.mergeSort_perm _ _).map _

theorem Distinct.same_copy (h : plan.Distinct) {copy file : Path} (hcopy : copy ∈ plan.written.copies)
    (hfile : file ∈ plan.written.files) : file.same copy = false := by
  obtain ⟨o, ho, rfl⟩ := List.mem_map.mp hcopy
  obtain ⟨f, hf, rfl⟩ := List.mem_map.mp hfile
  obtain ⟨-, -, hpairs⟩ := List.pairwise_append.mp h
  exact hpairs (.file f) (List.mem_map_of_mem hf) (.overlay o) (List.mem_map_of_mem ho)

theorem eq_written_of_write {root : Path} {d d' : Disk} {w : Written}
    (h : (plan.write root).run d = (.ok w, d')) :
    w = plan.written := by
  rw [write, OnDisk.run_look] at h
  split at h
  · cases h
  · obtain ⟨_, _, -, h⟩ := OnDisk.run_bind_eq_ok.mp h
    obtain ⟨_, _, -, h⟩ := OnDisk.run_bind_eq_ok.mp h
    cases h
    rfl

end Plan

namespace Package

variable (p : Package) (l : Language) (directory : Path) (disk : Disk)

/-- A dry run comes to a list of files, or fails where planning does; either way it leaves the disk alone. -/
theorem run_emit_dry : (p.emit l directory true).run disk = (p.list l directory, disk) := by
  rw [emit, if_pos rfl]
  cases p.list l directory <;> rfl

theorem run_emit_of_planFor_error {e : EmitError} (h : p.planFor l = .error e) :
    (p.emit l directory false).run disk = (.error (.planning directory e), disk) := by
  rw [emit, if_neg Bool.false_ne_true, generate, h]
  rfl

/-- If the library can be planned, the run fails only in writing, and what it reports is what is planned. -/
theorem run_emit_of_planFor_ok {plan : Plan} (h : p.planFor l = .ok plan) :
    (p.emit l directory false).run disk =
      ((((plan.write directory).run disk).1.mapError (OperationFailure.writing directory)).map
          (fun w => p.generationReport l directory (.written w)), ((plan.write directory).run disk).2) := by
  rw [emit, if_neg Bool.false_ne_true, generate, h]
  dsimp only
  rw [OnDisk.run_bind, OnDisk.run_mapError]
  generalize (plan.write directory).run disk = result
  obtain ⟨_ | w, after⟩ := result <;> rfl

theorem list_eq_error_iff {failure : OperationFailure} :
    p.list l directory = .error failure ↔ ∃ e, failure = .listing e ∧ p.planFor l = .error e := by
  rw [list]
  cases p.planFor l with
  | error e => simp [Except.mapError, Except.map, eq_comm]
  | ok plan => simp [Except.mapError, Except.map]

theorem run_emit_planning_iff {e : EmitError} :
    ((p.emit l directory false).run disk).1 = .error (.planning directory e) ↔ p.planFor l = .error e := by
  cases h : p.planFor l with
  | error other =>
    rw [run_emit_of_planFor_error p l directory disk h]
    simp
  | ok plan =>
    rw [run_emit_of_planFor_ok p l directory disk h]
    cases ((plan.write directory).run disk).1 <;> simp [Except.mapError, Except.map]

/-- What a dry run lists beside what the run reports: the same generated files, in the order of
their paths, and none of the copies. -/
structure Lists (p : Package) (l : Language) (files : List Path) (w : Plan.Written) : Prop where
  generated : files.Perm w.files
  copies : w.copies = (p.copies l).map (·.path)
  apart : ∀ copy ∈ w.copies, ∀ file ∈ files, file.same copy = false

variable {p l directory disk}

theorem lists_of_planFor {plan : Plan} (h : p.planFor l = .ok plan) :
    Lists p l (plan.preview.map (·.path)) plan.written := by
  obtain ⟨hoverlays, hdistinct⟩ := overlays_planFor h
  have hperm := plan.preview_perm
  exact ⟨hperm, by rw [Plan.written, hoverlays],
    fun copy hcopy file hfile => hdistinct.same_copy hcopy (hperm.mem_iff.mp hfile)⟩

theorem lists_of_ok {dry real : GenerationReport} {after : Disk} (hdry : p.list l directory = .ok dry)
    (hreal : (p.emit l directory false).run disk = (.ok real, after)) :
    ∃ files w, dry.result = .listed files ∧ real.result = .written w ∧ Lists p l files w := by
  cases hplan : p.planFor l with
  | error e =>
    rw [run_emit_of_planFor_error p l directory disk hplan] at hreal
    cases hreal
  | ok plan =>
    rw [list, hplan] at hdry
    rw [run_emit_of_planFor_ok p l directory disk hplan] at hreal
    generalize hwrite : (plan.write directory).run disk = result at hreal
    obtain ⟨_ | w, written⟩ := result
    · cases hreal
    · cases hdry
      cases hreal
      obtain rfl := Plan.eq_written_of_write hwrite
      exact ⟨_, _, rfl, rfl, lists_of_planFor hplan⟩

theorem Lists.samePaths_iff {files : List Path} {w : Plan.Written} (h : Lists p l files w) :
    SamePaths files (w.files ++ w.copies) ↔ l = .schema ∨ ∀ m ∈ p.modules, m.overlays = [] := by
  rw [samePaths_append_iff h.generated h.apart, h.copies, List.map_eq_nil_iff, copies_eq_nil_iff]

/-- A dry run fails in planning exactly if the run does, for the same reason; it does not fail
otherwise and leaves the disk as it is. If both succeed, the dry run lists the generated files that
the run reports and none of the hand-written ones; so it lists all that the run reports exactly if
there are no hand-written files for the target. -/
theorem dryRun_lists_iff (p : Package) (l : Language) (directory : Path) (disk : Disk) :
    (∀ e, ((p.emit l directory true).run disk).1 = .error (.listing e) ↔
        ((p.emit l directory false).run disk).1 = .error (.planning directory e)) ∧
      (∀ failure, ((p.emit l directory true).run disk).1 = .error failure → ∃ e, failure = .listing e) ∧
      ((p.emit l directory true).run disk).2 = disk ∧
      ∀ dry real after, ((p.emit l directory true).run disk).1 = .ok dry →
        (p.emit l directory false).run disk = (.ok real, after) →
          ∃ files w, dry.result = .listed files ∧ real.result = .written w ∧ Lists p l files w ∧
            (SamePaths files (w.files ++ w.copies) ↔ l = .schema ∨ ∀ m ∈ p.modules, m.overlays = []) := by
  rw [run_emit_dry]
  refine ⟨fun e => ?_, fun failure h => ?_, rfl, fun dry real after hdry hreal => ?_⟩
  · simp only [list_eq_error_iff, run_emit_planning_iff, OperationFailure.listing.injEq, exists_eq_left']
  · obtain ⟨e, he, -⟩ := (list_eq_error_iff p l directory).mp h
    exact ⟨e, he⟩
  · obtain ⟨files, w, hfiles, hw, hlists⟩ := lists_of_ok hdry hreal
    exact ⟨files, w, hfiles, hw, hlists, hlists.samePaths_iff⟩

/-- A package with a resource, and with hand-written files beside it. -/
def hostPackage (files : List OverlayFile) : Package where
  name := "acme"
  version := "1.0.0"
  modules := [⟨rootModule, .resource { (default : Resource) with name := "Host", fileStem := "host" } ::
    files.map .overlay⟩]

def handFile : OverlayFile := ⟨"hand.ts", ⟨"overlays/hand.ts"⟩⟩

/-- The library is planned and written, if this can be computed. -/
theorem exists_runs {files : List OverlayFile}
    (h : (((hostPackage files).emit .nodejs ⟨"out"⟩ false).run Plan.handDisk).1.toBool = true) :
    ∃ dry real after, (hostPackage files).list .nodejs ⟨"out"⟩ = .ok dry ∧
      ((hostPackage files).emit .nodejs ⟨"out"⟩ false).run Plan.handDisk = (.ok real, after) := by
  cases hplan : (hostPackage files).planFor .nodejs with
  | error e =>
    rw [run_emit_of_planFor_error _ _ _ _ hplan] at h
    cases h
  | ok plan =>
    generalize ((hostPackage files).emit .nodejs ⟨"out"⟩ false).run Plan.handDisk = result at h ⊢
    obtain ⟨_ | real, after⟩ := result
    · cases h
    · exact ⟨_, real, after, by rw [list, hplan]; rfl, rfl⟩

theorem hostPackage_dryRun_lists :
    ∃ dry real after, (((hostPackage []).emit .nodejs ⟨"out"⟩ true).run Plan.handDisk).1 = .ok dry ∧
      ((hostPackage []).emit .nodejs ⟨"out"⟩ false).run Plan.handDisk = (.ok real, after) ∧
      ∃ files w, dry.result = .listed files ∧ real.result = .written w ∧
        SamePaths files (w.files ++ w.copies) := by
  obtain ⟨dry, real, after, hdry, hreal⟩ := @exists_runs [] (by decide +kernel)
  have hdry : (((hostPackage []).emit .nodejs ⟨"out"⟩ true).run Plan.handDisk).1 = .ok dry := by
    rw [run_emit_dry, hdry]
  obtain ⟨-, -, -, hlists⟩ := dryRun_lists_iff (hostPackage []) .nodejs ⟨"out"⟩ Plan.handDisk
  obtain ⟨files, w, hfiles, hw, -, hsame⟩ := hlists dry real after hdry hreal
  exact ⟨dry, real, after, hdry, hreal, files, w, hfiles, hw, hsame.mpr (.inr (by decide +kernel))⟩

/-- The run copies a hand-written file that a dry run does not list. -/
theorem hostPackage_handFile_unlisted :
    ∃ dry real after, (((hostPackage [handFile]).emit .nodejs ⟨"out"⟩ true).run Plan.handDisk).1 = .ok dry ∧
      ((hostPackage [handFile]).emit .nodejs ⟨"out"⟩ false).run Plan.handDisk = (.ok real, after) ∧
      ∃ files w, dry.result = .listed files ∧ real.result = .written w ∧ w.copies = [⟨"hand.ts"⟩] ∧
        ¬ SamePaths files (w.files ++ w.copies) := by
  obtain ⟨dry, real, after, hdry, hreal⟩ := @exists_runs [handFile] (by decide +kernel)
  obtain ⟨files, w, hfiles, hw, hlists⟩ := lists_of_ok hdry hreal
  refine ⟨dry, real, after, by rw [run_emit_dry, hdry], hreal, files, w, hfiles, hw,
    hlists.copies.trans (by decide +kernel), ?_⟩
  rw [hlists.samePaths_iff]
  decide +kernel

end Package

end ProviderSdk
