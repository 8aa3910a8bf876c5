import ProviderSdk.Proofs.Disk.Paths

/-!
# Ways of paths

A path passes the places that its first segments lead to. The path without its last component passes
no others, and a path joined to another passes those of the other first.
-/

namespace ProviderSdk

namespace Path

variable {p q : Path}

theorem trimSegments_isPrefix (segments : List String) : trimSegments segments <+: segments := by
  rw [trimSegments, ← List.reverse_suffix, List.reverse_reverse]
  exact List.dropWhile_suffix isSilent

/-- Some of the first segments of a path, the first among them, are those of a path that starts
where it does. -/
theorem isAbsolute_eq_of_segments {first : String} {kept rest : List String} (hp : p.segments = first :: rest)
    (hq : q.segments = first :: kept) (hkept : first = "" → kept ≠ []) (hrest : first = "" → rest ≠ []) :
    q.isAbsolute = p.isAbsolute := by
  rw [Bool.eq_iff_iff, isAbsolute_iff_segments, isAbsolute_iff_segments, hp, hq]
  constructor
  · rintro ⟨_, _, h⟩
    obtain ⟨rfl, -⟩ := List.cons.inj h
    exact ⟨rest, hrest rfl, rfl⟩
  · rintro ⟨_, _, h⟩
    obtain ⟨rfl, -⟩ := List.cons.inj h
    exact ⟨kept, hkept rfl, rfl⟩

/-- What is left of a path without its last component starts where the path does, and goes nowhere
or has some of its first segments. -/
theorem parent?_eq_some (h : p.parent? = some q) :
    q.isAbsolute = p.isAbsolute ∧ ((∀ segment ∈ q.segments, segment = "") ∨ q.segments <+: p.segments) := by
  have hpieces : ∀ segment ∈ p.segments, '/' ∉ segment.toList := fun _ => Text.not_mem_of_mem_split
  rw [parent?] at h
  cases hp : p.segments with
  | nil => exact absurd hp p.segments_ne_nil
  | cons first rest =>
    simp only [hp] at h
    cases htrimmed : (trimSegments rest).reverse with
    | nil =>
      simp only [htrimmed] at h
      by_cases hnone : p.text = "" ∨ p.isAbsolute = true
      · simp [hnone] at h
      · simp only [Bool.or_eq_true, decide_eq_true_eq, hnone, if_false, Option.some.injEq] at h
        rw [← h, Bool.eq_false_iff.mpr (fun habsolute => hnone (.inr habsolute))]
        exact ⟨rfl, .inl (fun _ => List.mem_singleton.mp)⟩
    | cons last before =>
      simp only [htrimmed] at h
      have hbefore : before.reverse <+: rest := by
        have hrest := trimSegments_isPrefix rest
        rw [← List.reverse_reverse (trimSegments rest), htrimmed, List.reverse_cons] at hrest
        exact (List.prefix_append _ _).trans hrest
      have hrest : rest ≠ [] := by
        rintro rfl
        simp [trimSegments] at htrimmed
      cases hkept : trimSegments before.reverse with
      | nil =>
        simp only [hkept, Option.some.injEq] at h
        by_cases hfirst : first = ""
        · have habsolute : p.isAbsolute = true :=
            isAbsolute_iff_segments.mpr ⟨rest, hrest, by rw [hp, hfirst]⟩
          have hroot : (Path.mk "/").segments = ["", ""] := rfl
          rw [habsolute, ← h, if_pos hfirst]
          exact ⟨isAbsolute_iff_segments.mpr ⟨[""], by simp, hroot⟩, .inl (by simp [hroot])⟩
        · have hq : q.segments = [first] := by
            rw [← h, if_neg hfirst]
            exact Text.split_of_not_mem (hpieces first (by simp [hp]))
          have hstart := isAbsolute_eq_of_segments hp hq (fun h => absurd h hfirst) (fun h => absurd h hfirst)
          exact ⟨hstart, .inr (by simp [hq])⟩
      | cons second kept =>
        simp only [hkept, Option.some.injEq] at h
        have hprefix : first :: second :: kept <+: first :: rest := by
          rw [List.prefix_cons_inj, ← hkept]
          exact (trimSegments_isPrefix _).trans hbefore
        have hq : q.segments = first :: second :: kept := by
          rw [← h]
          exact Text.split_intercalate (by simp) (fun piece hpiece =>
            hpieces piece (hp ▸ hprefix.subset hpiece))
        exact ⟨isAbsolute_eq_of_segments hp hq (by simp) (fun _ => hrest), .inr (hq ▸ hprefix)⟩

def trimmed (p : Path) : Path := ⟨String.ofList (p.text.toList.reverse.dropWhile (· == '/')).reverse⟩

end Path

namespace Disk

variable {d : Disk} {p q base part : Path} {place : List String}

theorem foldl_placeBehind_of_empty {segments : List String} (h : ∀ segment ∈ segments, segment = "")
    (here : List String) : segments.foldl placeBehind here = here := by
  induction segments with
  | nil => rfl
  | cons first rest ih =>
    obtain ⟨rfl, hrest⟩ := List.forall_mem_cons.mp h
    exact ih hrest

/-- Slashes at the end of a path lead nowhere. -/
theorem place_append_slashes (d : Disk) {text : List Char} (htext : text ≠ []) {slashes : List Char}
    (h : ∀ c ∈ slashes, c = '/') :
    d.place ⟨String.ofList (text ++ slashes)⟩ = d.place ⟨String.ofList text⟩ := by
  have hsegments : (Path.mk (String.ofList (text ++ slashes))).segments =
      (Path.mk (String.ofList text)).segments ++ List.replicate slashes.length "" := by
    simp [Path.segments, Text.split, Text.splitAt, Text.splitWhere_append_of_forall (· == '/') text
      (fun c hc => beq_iff_eq.mpr (h c hc))]
  have horigin : d.origin ⟨String.ofList (text ++ slashes)⟩ = d.origin ⟨String.ofList text⟩ := by
    rw [origin, origin, String.ofList_append, Path.isAbsolute_append (by simpa using htext)]
  rw [place_eq, horigin, hsegments, List.foldl_append,
    foldl_placeBehind_of_empty (fun _ => List.eq_of_mem_replicate), ← place_eq]

theorem place_trimmed (d : Disk) (p : Path) :
    d.place (if p.trimmed.text = "" then p else p.trimmed) = d.place p := by
  split
  · rfl
  · next hne =>
    have htext : p.text.toList = p.trimmed.text.toList ++
        (p.text.toList.reverse.takeWhile (· == '/')).reverse := by
      rw [Path.trimmed, String.toList_ofList, ← List.reverse_append, List.takeWhile_append_dropWhile,
        List.reverse_reverse]
    have hslashes : ∀ c ∈ (p.text.toList.reverse.takeWhile (· == '/')).reverse, c = '/' := by
      intro c hc
      exact beq_iff_eq.mp (List.all_eq_true.mp List.all_takeWhile c (List.mem_reverse.mp hc))
    have hplace := place_append_slashes d (String.toList_eq_nil_iff.not.mpr hne) hslashes
    rw [← htext] at hplace
    simpa using hplace.symm

/-- A path passes the places that its first segments lead to, the last of which is its own. -/
def Passes (d : Disk) (p : Path) (place : List String) : Prop :=
  ∃ before, before <+: p.segments ∧ place = before.foldl placeBehind (d.origin p)

theorem passes_place (d : Disk) (p : Path) : d.Passes p (d.place p) := ⟨p.segments, List.prefix_rfl, rfl⟩

theorem passes_congr {d' : Disk} (h : d'.workingDirectory = d.workingDirectory) (p : Path) :
    d'.Passes p = d.Passes p := by
  funext place
  rw [Passes, Passes, origin, origin, h]

/-- The way of a joined path is the way of the other, and goes on from its place. -/
theorem Passes.of_join (hpart : part.isAbsolute = false) (h : d.Passes (base.join part) place) :
    d.Passes base place ∨ ∃ before, before <+: part.segments ∧
      place = before.foldl placeBehind (d.place base) := by
  obtain ⟨horigin, front, hjoined, hfront, hbase⟩ := d.place_join_relative base hpart
  obtain ⟨before, ⟨after, hafter⟩, rfl⟩ := h
  rw [hjoined, List.append_eq_append_iff] at hafter
  obtain ⟨between, hbetween, -⟩ | ⟨behind, rfl, hsegments⟩ := hafter
  · exact .inl ⟨before, (hbetween ▸ List.prefix_append _ _).trans hfront, by rw [horigin]⟩
  · exact .inr ⟨behind, ⟨after, hsegments.symm⟩, by rw [horigin, List.foldl_append, hbase]⟩

/-- The path without its last component passes no other places. -/
theorem Passes.of_parent? (h : p.parent? = some q) (hpasses : d.Passes q place) : d.Passes p place := by
  obtain ⟨before, hbefore, rfl⟩ := hpasses
  obtain ⟨habsolute, hempty | hsegments⟩ := Path.parent?_eq_some h
  · refine ⟨[], List.nil_prefix, ?_⟩
    rw [foldl_placeBehind_of_empty (fun segment hsegment => hempty segment (hbefore.subset hsegment)),
      List.foldl_nil, origin, origin, habsolute]
  · exact ⟨before, hbefore.trans hsegments, by rw [origin, origin, habsolute]⟩

end Disk

end ProviderSdk
