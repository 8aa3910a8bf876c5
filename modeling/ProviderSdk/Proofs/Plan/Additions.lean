import ProviderSdk.Library.Emission
import ProviderSdk.Proofs.Disk.Actions
import ProviderSdk.Proofs.Disk.Paths
import ProviderSdk.Proofs.Results

/-!
# Additions to plans

No two entries of a plan have the same path, however it came about. An addition fails exactly if its
path is taken, and then the plan stays as it was; otherwise the entry comes behind the earlier ones
of its kind. The entries of a library are added module after module. A plan to which something to be
copied is missing writes nothing.
-/

namespace ProviderSdk

def PlanEntry.path : PlanEntry → Path
  | .file f => f.path
  | .overlay o => o.path

def PlanEntry.file? : PlanEntry → Option PlannedFile
  | .file f => some f
  | .overlay _ => none

namespace Plan

/-- All that is planned, in the order in which it is written: first the generated files, then the copies. -/
def entries (p : Plan) : List PlanEntry := p.files.map .file ++ p.overlays.map .overlay

def append (p : Plan) : PlanEntry → Plan
  | .file f => { p with files := p.files ++ [f] }
  | .overlay o => { p with overlays := p.overlays ++ [o] }

/-- The plan that an addition leaves, whether it succeeds or fails. -/
def attempt (p : Plan) (e : PlanEntry) : Plan :=
  match p.add e with
  | .ok q => q
  | .error _ => p

/-- The plan that additions to an empty plan leave, those that fail among them. -/
def attempts (calls : List PlanEntry) : Plan := calls.foldl attempt {}

def Has (p : Plan) (path : Path) : Prop := ∃ e ∈ p.entries, e.path.same path = true

def Distinct (p : Plan) : Prop := p.entries.Pairwise (fun e e' => e.path.same e'.path = false)

variable {p q : Plan} {e : PlanEntry}

theorem mem_entries : e ∈ p.entries ↔ (∃ f ∈ p.files, .file f = e) ∨ ∃ o ∈ p.overlays, .overlay o = e := by
  rw [entries, List.mem_append, List.mem_map, List.mem_map]

theorem filterMap_file?_entries (p : Plan) : p.entries.filterMap PlanEntry.file? = p.files := by
  simp [entries, PlanEntry.file?, Function.comp_def]

theorem has_iff {path : Path} :
    p.Has path ↔ (p.file? path).isSome = true ∨ (p.overlay? path).isSome = true := by
  simp only [Has, mem_entries, file?, overlay?, List.find?_isSome]
  constructor
  · rintro ⟨e, ⟨f, hf, rfl⟩ | ⟨o, ho, rfl⟩, hsame⟩
    · exact .inl ⟨f, hf, hsame⟩
    · exact .inr ⟨o, ho, hsame⟩
  · rintro (⟨f, hf, hsame⟩ | ⟨o, ho, hsame⟩)
    · exact ⟨_, .inl ⟨f, hf, rfl⟩, hsame⟩
    · exact ⟨_, .inr ⟨o, ho, rfl⟩, hsame⟩

theorem add_of_has (h : p.Has e.path) : ∃ cause, p.add e = .error cause := by
  rw [has_iff] at h
  cases e with
  | file f =>
    simp only [add, addFile, PlanEntry.path] at h ⊢
    cases hoverlay : p.overlay? f.path with
    | some o => exact ⟨_, rfl⟩
    | none =>
      cases hfile : p.file? f.path with
      | some f' => exact ⟨_, rfl⟩
      | none => simp [hoverlay, hfile] at h
  | overlay o =>
    simp only [add, addOverlay, PlanEntry.path] at h ⊢
    cases hfile : p.file? o.path with
    | some f => exact ⟨_, rfl⟩
    | none =>
      cases hoverlay : p.overlay? o.path with
      | some o' => exact ⟨_, rfl⟩
      | none => simp [hoverlay, hfile] at h

theorem add_of_not_has (h : ¬ p.Has e.path) : p.add e = .ok (p.append e) := by
  simp only [has_iff, not_or, Bool.not_eq_true, Option.isSome_eq_false_iff, Option.isNone_iff_eq_none] at h
  obtain ⟨hfile, hoverlay⟩ := h
  cases e with
  | file f =>
    simp only [PlanEntry.path] at hfile hoverlay
    simp only [add, addFile, hfile, hoverlay, append]
  | overlay o =>
    simp only [PlanEntry.path] at hfile hoverlay
    simp only [add, addOverlay, hfile, hoverlay, append]

theorem add_eq_error_iff : (∃ cause, p.add e = .error cause) ↔ p.Has e.path := by
  refine ⟨fun ⟨cause, herror⟩ => Classical.byContradiction (fun h => ?_), add_of_has⟩
  rw [add_of_not_has h] at herror
  cases herror

theorem add_eq_ok_iff : p.add e = .ok q ↔ ¬ p.Has e.path ∧ q = p.append e := by
  constructor
  · intro h
    have hnot : ¬ p.Has e.path := by
      intro hhas
      obtain ⟨cause, herror⟩ := add_of_has hhas
      rw [h] at herror
      cases herror
    rw [add_of_not_has hnot] at h
    exact ⟨hnot, (Except.ok.inj h).symm⟩
  · rintro ⟨h, rfl⟩
    exact add_of_not_has h

theorem attempt_of_error {cause : PlanError} (h : p.add e = .error cause) : p.attempt e = p := by
  simp [attempt, h]

theorem attempt_of_ok (h : p.add e = .ok q) : p.attempt e = q := by
  simp [attempt, h]

theorem entries_append (p : Plan) (e : PlanEntry) : (p.append e).entries.Perm (p.entries ++ [e]) := by
  cases e with
  | file f =>
    simp only [entries, append, List.map_append, List.map_cons, List.map_nil, List.append_assoc]
    exact List.Perm.append_left _ List.perm_append_comm
  | overlay o => simp [entries, append]

theorem Distinct.append (h : p.Distinct) (he : ¬ p.Has e.path) : (p.append e).Distinct := by
  have hsymm {a b : PlanEntry} (hab : a.path.same b.path = false) : b.path.same a.path = false := by
    rwa [Path.same_comm]
  rw [Distinct, (entries_append p e).pairwise_iff hsymm, List.pairwise_append]
  refine ⟨h, List.pairwise_singleton _ _, ?_⟩
  intro a ha b hb
  rw [List.mem_singleton.mp hb, Bool.eq_false_iff]
  exact fun hsame => he ⟨a, ha, hsame⟩

theorem Distinct.attempt (h : p.Distinct) (e : PlanEntry) : (p.attempt e).Distinct := by
  cases hadd : p.add e with
  | error cause => rwa [attempt_of_error hadd]
  | ok q =>
    obtain ⟨hnot, rfl⟩ := add_eq_ok_iff.mp hadd
    rw [attempt_of_ok hadd]
    exact h.append hnot

theorem Distinct.foldl_attempt (h : p.Distinct) (calls : List PlanEntry) :
    (calls.foldl Plan.attempt p).Distinct := by
  induction calls generalizing p with
  | nil => exact h
  | cons e rest ih => exact ih (h.attempt e)

theorem distinct_attempts (calls : List PlanEntry) : (attempts calls).Distinct :=
  @Distinct.foldl_attempt {} List.Pairwise.nil calls

theorem foldlM_add_eq_ok {calls : List PlanEntry} (h : calls.foldlM add p = .ok q) :
    q.entries.Perm (p.entries ++ calls) ∧ (p.Distinct → q.Distinct) := by
  induction calls generalizing p with
  | nil =>
    cases h
    exact ⟨by simp, id⟩
  | cons e rest ih =>
    rw [List.foldlM_cons] at h
    obtain ⟨between, hadd, hrest⟩ := bind_eq_ok.mp h
    obtain ⟨hnot, rfl⟩ := add_eq_ok_iff.mp hadd
    obtain ⟨hperm, hdistinct⟩ := ih hrest
    refine ⟨?_, fun hp => hdistinct (hp.append hnot)⟩
    have hfirst := (entries_append p e).append_right rest
    rw [List.append_assoc] at hfirst
    exact hperm.trans hfirst

section

variable {entries : List PlanEntry} {contents : Module → Except EmitCause (List PlanEntry)} {ms : List Module}

theorem addOutside_eq_ok : p.addOutside entries = .ok q ↔ entries.foldlM add p = .ok q := by
  rw [addOutside, mapError_eq_ok, addEntries, mapError_eq_ok]

theorem addModule_eq_ok {m : Module} :
    addModule contents p m = .ok q ↔ ∃ entries, contents m = .ok entries ∧ entries.foldlM add p = .ok q := by
  rw [addModule, mapError_eq_ok]
  change contents m >>= p.addEntries = .ok q ↔ _
  simp only [bind_eq_ok, addEntries, mapError_eq_ok]

theorem addModules_eq_ok (h : p.addModules contents ms = .ok q) :
    ∃ added, List.Forall₂ (fun m entries => contents m = .ok entries) ms added ∧
      added.flatten.foldlM add p = .ok q := by
  induction ms generalizing p with
  | nil =>
    cases h
    exact ⟨[], .nil, rfl⟩
  | cons m rest ih =>
    rw [addModules, List.foldlM_cons] at h
    obtain ⟨between, hfirst, hrest⟩ := bind_eq_ok.mp h
    obtain ⟨entries, hentries, hadded⟩ := addModule_eq_ok.mp hfirst
    obtain ⟨added, hcontents, hmore⟩ := ih hrest
    refine ⟨entries :: added, .cons hentries hcontents, ?_⟩
    rw [List.flatten_cons, List.foldlM_append, hadded]
    exact hmore

end

/-- A plan is not written at all if something to be copied is missing. -/
theorem write_of_missing {disk : Disk} (h : ∃ o ∈ p.overlays, disk.isFile o.source = false) (root : Path) :
    ∃ o ∈ p.overlays, disk.isFile o.source = false ∧
      (p.write root).run disk = (.error (.overlayMissing o.source), disk) := by
  cases hfind : p.overlays.find? (fun o => !disk.isFile o.source) with
  | none =>
    obtain ⟨o, ho, hmissing⟩ := h
    have hpresent := List.find?_eq_none.mp hfind o ho
    simp [hmissing] at hpresent
  | some o =>
    have hmissing : disk.isFile o.source = false := by simpa using List.find?_some hfind
    refine ⟨o, List.mem_of_find?_eq_some hfind, hmissing, ?_⟩
    rw [write, OnDisk.run_look, hfind]
    rfl

/-- Whatever is added to an empty plan, with success or not, no two entries have the same path. The
next addition fails exactly if its path is taken, and leaves the plan as it is then; if it succeeds,
its entry comes behind the earlier ones of its kind, and nothing else changes. And no plan to which
something to be copied is missing changes a disk. -/
theorem attempts_distinct_and_write_atomic (calls : List PlanEntry) :
    (attempts calls).Distinct ∧
      (∀ e, (∃ cause, (attempts calls).add e = .error cause) ↔ (attempts calls).Has e.path) ∧
      (∀ e cause, (attempts calls).add e = .error cause → attempts (calls ++ [e]) = attempts calls) ∧
      (∀ e q, (attempts calls).add e = .ok q →
        attempts (calls ++ [e]) = q ∧ q = (attempts calls).append e) ∧
      ∀ (p : Plan) (disk : Disk), (∃ o ∈ p.overlays, disk.isFile o.source = false) → ∀ root,
        ∃ o ∈ p.overlays, disk.isFile o.source = false ∧
          (p.write root).run disk = (.error (.overlayMissing o.source), disk) := by
  have hnext (e : PlanEntry) : attempts (calls ++ [e]) = (attempts calls).attempt e := by
    simp [attempts]
  refine ⟨distinct_attempts calls, fun e => add_eq_error_iff, ?_, ?_, fun p disk => write_of_missing⟩
  · intro e cause herror
    rw [hnext, attempt_of_error herror]
  · intro e q hq
    rw [hnext, attempt_of_ok hq]
    exact ⟨rfl, (add_eq_ok_iff.mp hq).2⟩

/-- A generated file, a copy, and a copy in the way of the file: its path is written in another way. -/
def noteCalls : List PlanEntry :=
  [.file ⟨⟨"notes/index.ts"⟩, "a"⟩, .overlay ⟨⟨"notes/hand.ts"⟩, ⟨"hand.ts"⟩⟩,
    .overlay ⟨⟨"notes//./index.ts/"⟩, ⟨"b.ts"⟩⟩]

theorem noteCalls_attempts :
    (attempts noteCalls).Distinct ∧
      (∃ cause, (attempts noteCalls).add (.file ⟨⟨"notes/./hand.ts"⟩, "c"⟩) = .error cause) ∧
      attempts (noteCalls ++ [.file ⟨⟨"notes/./hand.ts"⟩, "c"⟩]) = attempts noteCalls ∧
      attempts (noteCalls ++ [.file ⟨⟨"hand.ts"⟩, "c"⟩]) =
        (attempts noteCalls).append (.file ⟨⟨"hand.ts"⟩, "c"⟩) ∧
      ∃ e, ((attempts noteCalls).write ⟨"out"⟩).run ⟨.empty, []⟩ = (.error e, ⟨.empty, []⟩) := by
  obtain ⟨hdistinct, herror, hsame, hgrown, hmissing⟩ := attempts_distinct_and_write_atomic noteCalls
  obtain ⟨cause, hcause⟩ := (herror (.file ⟨⟨"notes/./hand.ts"⟩, "c"⟩)).mpr
    ⟨.overlay ⟨⟨"notes/hand.ts"⟩, ⟨"hand.ts"⟩⟩, by decide +kernel, by decide +kernel⟩
  obtain ⟨hq, hgrows⟩ := hgrown (.file ⟨⟨"hand.ts"⟩, "c"⟩) _ rfl
  obtain ⟨_, _, _, hwrite⟩ := hmissing (attempts noteCalls) ⟨.empty, []⟩
    ⟨⟨⟨"notes/hand.ts"⟩, ⟨"hand.ts"⟩⟩, by decide +kernel, by decide +kernel⟩ ⟨"out"⟩
  exact ⟨hdistinct, ⟨cause, hcause⟩, hsame _ cause hcause, hq.trans hgrows, _, hwrite⟩

end Plan

end ProviderSdk
