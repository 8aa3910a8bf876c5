import Mathlib.Data.Fintype.EquivFin
import ProviderSdk.Proofs.Disk.Ways

/-!
# Confined paths

A relative path is confined if it never goes up further than it has come down. These are exactly the
paths that lead beneath everything they are joined to; and all that such a path passes behind the
other lies beneath it.
-/

namespace ProviderSdk

/-- How far below its start a path is behind a segment, if it is at some depth before. Nothing if
the segment leads above the start. -/
def depthBehind (depth : Nat) (segment : String) : Option Nat :=
  if segment = "" ∨ segment = "." then some depth
  else if segment = ".." then (if depth = 0 then none else some (depth - 1))
  else some (depth + 1)

/-- The path is relative and never goes above its start. -/
def Path.Confined (p : Path) : Prop := p.isAbsolute = false ∧ (p.segments.foldlM depthBehind 0).isSome = true

instance (p : Path) : Decidable p.Confined := inferInstanceAs (Decidable (_ ∧ _))

/-- A segment that does not lead above the start leads to a place beneath it. -/
theorem exists_placeBehind {start below : List String} {segment : String} {depth : Nat}
    (h : depthBehind below.length segment = some depth) :
    ∃ reached, placeBehind (start ++ below) segment = start ++ reached ∧ reached.length = depth := by
  rw [depthBehind] at h
  rw [placeBehind]
  by_cases hsilent : segment = "" ∨ segment = "."
  · rw [if_pos hsilent] at h ⊢
    exact ⟨below, rfl, Option.some.inj h⟩
  · rw [if_neg hsilent] at h ⊢
    by_cases hup : segment = ".."
    · rw [if_pos hup] at h ⊢
      by_cases hempty : below = []
      · simp [hempty] at h
      · refine ⟨below.dropLast, List.dropLast_append_of_ne_nil hempty, ?_⟩
        simpa [hempty] using h
    · rw [if_neg hup] at h ⊢
      exact ⟨below ++ [segment], List.append_assoc _ _ _, by simpa using h⟩

theorem exists_depthBehind_of_le {depth deeper next : Nat} {segment : String} (hle : depth ≤ deeper)
    (h : depthBehind depth segment = some next) :
    ∃ next', depthBehind deeper segment = some next' ∧ next ≤ next' := by
  simp only [depthBehind] at h ⊢
  split at h
  · next hsilent =>
    cases h
    exact ⟨deeper, if_pos hsilent, hle⟩
  · next hsilent =>
    rw [if_neg hsilent]
    split at h
    · next hup =>
      split at h
      · cases h
      · cases h
        exact ⟨deeper - 1, by rw [if_pos hup, if_neg (by omega)], by omega⟩
    · next hup =>
      cases h
      exact ⟨deeper + 1, if_neg hup, by omega⟩

/-- Segments that never go above their start lead beneath it. -/
theorem exists_foldl_placeBehind {start below segments : List String} {depth : Nat}
    (h : segments.foldlM depthBehind below.length = some depth) :
    ∃ reached, segments.foldl placeBehind (start ++ below) = start ++ reached := by
  induction segments generalizing below with
  | nil => exact ⟨below, rfl⟩
  | cons segment rest ih =>
    rw [List.foldlM_cons] at h
    obtain ⟨next, hnext, hrest⟩ := Option.bind_eq_some_iff.mp h
    obtain ⟨reached, hreached, rfl⟩ := exists_placeBehind hnext
    rw [List.foldl_cons, hreached]
    exact ih hrest

theorem prefix_foldl_placeBehind {segments : List String} (h : (segments.foldlM depthBehind 0).isSome = true)
    (start : List String) : start <+: segments.foldl placeBehind start := by
  obtain ⟨depth, hdepth⟩ := Option.isSome_iff_exists.mp h
  obtain ⟨reached, hreached⟩ := @exists_foldl_placeBehind start [] _ _ hdepth
  rw [List.append_nil] at hreached
  exact hreached ▸ List.prefix_append _ _

/-- Where all segments do not go above the start, the first of them do not either. -/
theorem isSome_foldlM_of_isPrefix {before segments : List String} {depth : Nat}
    (hbefore : before <+: segments) (h : (segments.foldlM depthBehind depth).isSome = true) :
    (before.foldlM depthBehind depth).isSome = true := by
  obtain ⟨after, rfl⟩ := hbefore
  rw [List.foldlM_append] at h
  cases hdepth : before.foldlM depthBehind depth with
  | none => simp [hdepth] at h
  | some reached => rfl

/-- Segments that do not go above their start do not from deeper below either. -/
theorem isSome_foldlM_of_le {segments : List String} {depth deeper : Nat} (hle : depth ≤ deeper)
    (h : (segments.foldlM depthBehind depth).isSome = true) :
    (segments.foldlM depthBehind deeper).isSome = true := by
  induction segments generalizing depth deeper with
  | nil => rfl
  | cons segment rest ih =>
    rw [List.foldlM_cons] at h ⊢
    cases hnext : depthBehind depth segment with
    | none => simp [hnext] at h
    | some next =>
      obtain ⟨next', hnext', hle'⟩ := exists_depthBehind_of_le hle hnext
      rw [hnext] at h
      rw [hnext']
      exact ih hle' h

/-- Segments lead to names of their own or of their start. -/
theorem mem_foldl_placeBehind {segments here : List String} {name : String}
    (h : name ∈ segments.foldl placeBehind here) : name ∈ here ∨ name ∈ segments := by
  induction segments generalizing here with
  | nil => exact .inl h
  | cons segment rest ih =>
    obtain hplace | hrest := ih h
    · rw [placeBehind] at hplace
      split at hplace
      · exact .inl hplace
      · split at hplace
        · exact .inl ((List.dropLast_sublist here).subset hplace)
        · obtain hhere | hsegment := List.mem_append.mp hplace
          · exact .inl hhere
          · exact .inr (List.mem_cons.mpr (.inl (List.mem_singleton.mp hsegment)))
    · exact .inr (List.mem_cons_of_mem _ hrest)

theorem depthBehind_eq_none {depth : Nat} {segment : String} (h : depthBehind depth segment = none) :
    depth = 0 ∧ segment = ".." := by
  rw [depthBehind] at h
  split at h
  · cases h
  · split at h
    · next hup =>
      split at h
      · next hdepth => exact ⟨hdepth, hup⟩
      · cases h
    · cases h

/-- Segments that go above their start leave the directory behind that it lies in, if they do not name it. -/
theorem not_mem_foldl_placeBehind {segments below : List String} {name : String}
    (h : segments.foldlM depthBehind below.length = none) (hname : name ∉ segments) :
    name ∉ segments.foldl placeBehind ([name] ++ below) := by
  induction segments generalizing below with
  | nil => cases h
  | cons segment rest ih =>
    rw [List.mem_cons, not_or] at hname
    rw [List.foldlM_cons] at h
    rw [List.foldl_cons]
    cases hnext : depthBehind below.length segment with
    | some depth =>
      obtain ⟨reached, hreached, rfl⟩ := @exists_placeBehind [name] _ _ _ hnext
      rw [hnext] at h
      rw [hreached]
      exact ih h hname.2
    | none =>
      -- The directory is left here, and no later segment leads back.
      obtain ⟨hbelow, rfl⟩ := depthBehind_eq_none hnext
      rw [List.length_eq_zero_iff.mp hbelow]
      intro hmem
      exact (mem_foldl_placeBehind hmem).elim (by simp [placeBehind]) hname.2

namespace Path

variable {p q : Path}

theorem Confined.place_join (h : p.Confined) (d : Disk) (root : Path) :
    d.place root <+: d.place (root.join p) := by
  rw [d.place_join root h.1]
  exact prefix_foldl_placeBehind h.2 _

/-- What a path passes that is joined to another lies beneath the other if the path is confined, or
the other passes it. -/
theorem Confined.passes_join {d : Disk} {root : Path} {place : List String} (h : p.Confined)
    (hpasses : d.Passes (root.join p) place) : d.Passes root place ∨ d.place root <+: place := by
  refine (hpasses.of_join h.1).imp_right ?_
  rintro ⟨before, hbefore, rfl⟩
  exact prefix_foldl_placeBehind (isSome_foldlM_of_isPrefix hbefore h.2) _

theorem Confined.join (hp : p.Confined) (hq : q.Confined) : (p.join q).Confined := by
  obtain ⟨habsolute, front, hjoined, hfront⟩ := p.join_relative hq.1
  refine ⟨habsolute.trans hp.1, ?_⟩
  have hprefix : front <+: p.segments := by
    obtain h | h := hfront
    · exact h ▸ List.prefix_rfl
    · exact h ▸ List.prefix_append _ _
  obtain ⟨depth, hdepth⟩ := Option.isSome_iff_exists.mp (isSome_foldlM_of_isPrefix hprefix hp.2)
  rw [hjoined, List.foldlM_append, hdepth]
  exact isSome_foldlM_of_le (Nat.zero_le depth) hq.2

theorem confined_of_name {name : String} (hslash : '/' ∉ name.toList) (hup : name ≠ "..") :
    Confined ⟨name⟩ := by
  have hsegments : (Path.mk name).segments = [name] := Text.split_of_not_mem hslash
  refine ⟨?_, ?_⟩
  · rw [Bool.eq_false_iff, ne_eq, isAbsolute_iff_segments, hsegments]
    rintro ⟨_, hrest, h⟩
    exact hrest (List.cons.inj h).2.symm
  · rw [hsegments, List.foldlM_cons, depthBehind, if_neg hup]
    split <;> rfl

/-- Some disk has its working directory in a directory that a path does not name. -/
theorem exists_sound_disk (segments : List String) :
    ∃ name, name ∉ segments ∧ Disk.Sound ⟨.directory [(name, .empty)], [name]⟩ := by
  obtain ⟨name, hname⟩ := Infinite.exists_notMem_finset segments.toFinset
  refine ⟨name, by simpa using hname, ?_⟩
  simp [Disk.Sound, Disk.found, DiskNode.found_directory_cons, DiskNode.empty, DiskNode.toFound]

theorem confined_iff :
    p.Confined ↔ ∀ (d : Disk) (root : Path), d.Sound → d.place root <+: d.place (root.join p) := by
  constructor
  · exact fun h d root _ => h.place_join d root
  · intro h
    obtain ⟨name, hname, hsound⟩ := exists_sound_disk p.segments
    have hroot : Disk.place ⟨.directory [(name, .empty)], [name]⟩ ⟨"."⟩ = [name] := by
      have hsegments : (Path.mk ".").segments = ["."] := Text.split_of_not_mem (by decide)
      have habsolute : (Path.mk ".").isAbsolute = false := by simp [isAbsolute]
      rw [Disk.place_eq, Disk.origin, habsolute, hsegments]
      rfl
    have hbeneath := h _ ⟨"."⟩ hsound
    rw [hroot] at hbeneath
    have hmem := hbeneath.subset (List.mem_singleton_self name)
    by_cases habsolute : p.isAbsolute = true
    · rw [Path.join, if_pos habsolute, Disk.place, if_pos habsolute] at hmem
      exact ((mem_foldl_placeBehind hmem).elim (by simp) hname).elim
    · rw [Bool.not_eq_true] at habsolute
      refine ⟨habsolute, ?_⟩
      cases hdepth : p.segments.foldlM depthBehind 0 with
      | some depth => rfl
      | none =>
        rw [Disk.place_join _ _ habsolute, hroot] at hmem
        exact absurd hmem (@not_mem_foldl_placeBehind _ [] name hdepth hname)

end Path

end ProviderSdk
