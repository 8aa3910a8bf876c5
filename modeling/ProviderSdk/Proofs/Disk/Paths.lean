import ProviderSdk.Proofs.Disk.Places
import ProviderSdk.Proofs.Text.Pieces

/-!
# Joined paths

A path joined to another leads from the place of the other. If its components are names only, it
leads straight down from there, and no other such path leads to the same place.
-/

namespace ProviderSdk

namespace Path

variable {p q : Path}

theorem same_iff : p.same q = true ↔ p.components = q.components := by
  simp [same]

theorem same_comm (p q : Path) : p.same q = q.same p := by
  rw [Bool.eq_iff_iff, same_iff, same_iff, eq_comm]

theorem isAbsolute_iff : p.isAbsolute = true ↔ p.text.toList.head? = some '/' := by
  rw [isAbsolute, String.startsWith_string_iff]
  cases p.text.toList with
  | nil => simp
  | cons c rest => simp [eq_comm]

theorem segments_ne_nil (p : Path) : p.segments ≠ [] := by
  rw [segments, Text.split, Text.splitAt]
  simp [Text.splitWhere_ne_nil]

/-- A path starts at the root if an empty segment comes first and others follow. -/
theorem isAbsolute_iff_segments : p.isAbsolute = true ↔ ∃ rest, rest ≠ [] ∧ p.segments = "" :: rest := by
  rw [isAbsolute_iff, segments, Text.split, Text.splitAt]
  cases p.text.toList with
  | nil => simp [Text.splitWhere]
  | cons c cs =>
    have hne := Text.splitWhere_ne_nil (· == '/') cs
    by_cases hc : c = '/'
    · simp [hc, Text.splitWhere, hne]
    · cases hpieces : Text.splitWhere (· == '/') cs with
      | nil => exact absurd hpieces hne
      | cons piece pieces => simp [hc, Text.splitWhere, hpieces]

theorem isAbsolute_append {start : String} (hstart : start ≠ "") (rest : String) :
    (Path.mk (start ++ rest)).isAbsolute = (Path.mk start).isAbsolute := by
  rw [Bool.eq_iff_iff, isAbsolute_iff, isAbsolute_iff]
  cases h : start.toList with
  | nil => exact absurd (String.toList_eq_nil_iff.mp h) hstart
  | cons c cs => simp [h]

theorem exists_eq_append_of_endsWith {s : String} (h : s.endsWith "/" = true) :
    ∃ front, s = front ++ "/" := by
  rw [← String.endsWith_toSlice, String.Slice.endsWith_string_iff] at h
  obtain ⟨front, hfront⟩ := h
  refine ⟨String.ofList front, ?_⟩
  rw [← String.toList_inj]
  simpa using hfront.symm

/-- A relative path that is joined to another starts where the other does, and its segments come
behind those of the other, of which an empty one at the end may be left out. -/
theorem join_relative (base : Path) {part : Path} (hpart : part.isAbsolute = false) :
    (base.join part).isAbsolute = base.isAbsolute ∧
      ∃ front, (base.join part).segments = front ++ part.segments ∧
      (base.segments = front ∨ base.segments = front ++ [""]) := by
  have hsplit (front : String) : Text.split '/' (front ++ "/" ++ part.text) =
      Text.split '/' front ++ part.segments :=
    Text.split_append '/' front part.text
  rw [join, if_neg (by simp [hpart])]
  by_cases hempty : base.text = ""
  · obtain rfl : base = ⟨""⟩ := congrArg Path.mk hempty
    have hbase : (Path.mk "").isAbsolute = false := rfl
    exact ⟨by simpa [hbase] using hpart, [], by simp, .inr rfl⟩
  · have habsolute (rest : String) : (Path.mk (base.text ++ rest)).isAbsolute = base.isAbsolute :=
      isAbsolute_append hempty rest
    by_cases hend : base.text.endsWith "/" = true
    · obtain ⟨front, hfront⟩ := exists_eq_append_of_endsWith hend
      rw [if_pos (by simp [hend])]
      refine ⟨habsolute _, Text.split '/' front, ?_, .inr ?_⟩
      · rw [segments, hfront]
        exact hsplit front
      · have h := Text.split_append '/' front ""
        rw [String.append_empty] at h
        rw [segments, hfront]
        exact h
    · rw [if_neg (by simp [hempty, hend])]
      refine ⟨?_, base.segments, hsplit base.text, .inl rfl⟩
      rw [String.append_assoc]
      exact habsolute _

end Path

namespace Disk

variable {part : Path}

def origin (d : Disk) (p : Path) : List String := if p.isAbsolute then [] else d.workingDirectory

theorem place_eq (d : Disk) (p : Path) : d.place p = p.segments.foldl placeBehind (d.origin p) := rfl

/-- A relative path that is joined to another starts where the other does, and its segments come
behind some that lead to the place of the other. -/
theorem place_join_relative (d : Disk) (base : Path) (hpart : part.isAbsolute = false) :
    d.origin (base.join part) = d.origin base ∧ ∃ front, (base.join part).segments = front ++ part.segments ∧
      front <+: base.segments ∧ d.place base = front.foldl placeBehind (d.origin base) := by
  obtain ⟨habsolute, front, hjoined, hbase⟩ := base.join_relative hpart
  refine ⟨by rw [origin, origin, habsolute], front, hjoined, ?_⟩
  obtain hbase | hbase := hbase
  · rw [place_eq, hbase]
    exact ⟨List.prefix_rfl, rfl⟩
  · rw [place_eq, hbase, List.foldl_append]
    exact ⟨List.prefix_append _ _, rfl⟩

/-- A relative path joined to another leads on from the place of the other. -/
theorem place_join (d : Disk) (base : Path) (hpart : part.isAbsolute = false) :
    d.place (base.join part) = part.segments.foldl placeBehind (d.place base) := by
  obtain ⟨horigin, front, hjoined, _, hbase⟩ := d.place_join_relative base hpart
  rw [place_eq, horigin, hjoined, List.foldl_append, ← hbase]

theorem place_join_join (d : Disk) (root base : Path) (hpart : part.isAbsolute = false) :
    d.place (root.join (base.join part)) = part.segments.foldl placeBehind (d.place (root.join base)) := by
  obtain ⟨habsolute, front, hjoined, hbase⟩ := base.join_relative hpart
  by_cases hrelative : base.isAbsolute = false
  · rw [d.place_join root (habsolute.trans hrelative), d.place_join root hrelative, hjoined,
      List.foldl_append]
    obtain hbase | hbase := hbase
    · rw [hbase]
    · rw [hbase, List.foldl_append]
      rfl
  · rw [Bool.not_eq_false] at hrelative
    have hjoin {p : Path} (hp : p.isAbsolute = true) : root.join p = p := by rw [Path.join, if_pos hp]
    rw [hjoin (habsolute.trans hrelative), hjoin hrelative, d.place_join base hpart]

end Disk

def PathComponent.name? : PathComponent → Option String
  | .name s => some s
  | _ => none

namespace Path

variable {p q : Path}

/-- All components are names: the path does not start at the root or at a dot, and never goes up. -/
def IsPlain (p : Path) : Prop := ∀ c ∈ p.components, ∃ s, c = .name s

theorem isPlain_iff : p.IsPlain ↔ ∀ c ∈ p.components, c.name?.isSome = true := by
  have hname (c : PathComponent) : (∃ s, c = .name s) ↔ c.name?.isSome = true := by
    cases c <;> simp [PathComponent.name?]
  simp only [IsPlain, hname]

instance : DecidablePred IsPlain := fun _ => decidable_of_iff _ isPlain_iff.symm

def names (p : Path) : List String := p.components.filterMap PathComponent.name?

theorem map_filterMap_name? {components : List PathComponent} (h : ∀ c ∈ components, ∃ s, c = .name s) :
    (components.filterMap PathComponent.name?).map .name = components := by
  induction components with
  | nil => rfl
  | cons c rest ih =>
    obtain ⟨s, rfl⟩ := h c List.mem_cons_self
    simp [PathComponent.name?, ih (fun c hc => h c (List.mem_cons_of_mem _ hc))]

theorem IsPlain.same (hp : p.IsPlain) (hq : q.IsPlain) (h : p.names = q.names) : p.same q = true := by
  rw [same_iff, ← map_filterMap_name? hp, ← map_filterMap_name? hq]
  exact congrArg (List.map PathComponent.name) h

theorem innerComponent?_eq_none_iff {segment : String} :
    innerComponent? segment = none ↔ segment = "" ∨ segment = "." := by
  unfold innerComponent?
  split
  · simp [*]
  · split <;> simp [*]

/-- What is no silent segment and does not go up is a name. -/
theorem innerComponent?_of_name {segment : String} (hsilent : ¬ (segment = "" ∨ segment = "."))
    (h : ∀ c, innerComponent? segment = some c → ∃ s, c = .name s) :
    segment ≠ ".." ∧ innerComponent? segment = some (.name segment) := by
  have hup : segment ≠ ".." := by
    rintro rfl
    obtain ⟨s, hs⟩ := h .parent rfl
    cases hs
  exact ⟨hup, by rw [innerComponent?, if_neg hsilent, if_neg hup]⟩

theorem foldl_placeBehind {segments : List String}
    (h : ∀ c ∈ segments.filterMap innerComponent?, ∃ s, c = .name s) (here : List String) :
    segments.foldl placeBehind here = here ++
      (segments.filterMap innerComponent?).filterMap PathComponent.name? := by
  induction segments generalizing here with
  | nil => simp
  | cons segment rest ih =>
    have hrest : ∀ c ∈ rest.filterMap innerComponent?, ∃ s, c = .name s := by
      intro c hc
      refine h c ?_
      rw [List.filterMap_cons]
      split
      · exact hc
      · exact List.mem_cons_of_mem _ hc
    rw [List.foldl_cons, ih hrest, placeBehind]
    by_cases hsilent : segment = "" ∨ segment = "."
    · rw [if_pos hsilent, List.filterMap_cons_none (innerComponent?_eq_none_iff.mpr hsilent)]
    · have hsegment (c : PathComponent) (hc : innerComponent? segment = some c) : ∃ s, c = .name s :=
        h c (List.mem_filterMap.mpr ⟨segment, List.mem_cons_self, hc⟩)
      obtain ⟨hup, hname⟩ := innerComponent?_of_name hsilent hsegment
      rw [if_neg hsilent, if_neg hup, List.filterMap_cons_some hname]
      simp [PathComponent.name?]

/-- A path of names only does not start at the root. -/
theorem IsPlain.isAbsolute (h : p.IsPlain) : p.isAbsolute = false := by
  rw [Bool.eq_false_iff]
  intro habsolute
  obtain ⟨rest, -, hsegments⟩ := isAbsolute_iff_segments.mp habsolute
  obtain ⟨s, hs⟩ := h .root (by simp [components, hsegments, habsolute])
  cases hs

theorem IsPlain.components_eq_filterMap (h : p.IsPlain) :
    p.components = p.segments.filterMap innerComponent? := by
  have hcurrent : .current ∉ p.components := by
    intro hmem
    obtain ⟨s, hs⟩ := h _ hmem
    cases hs
  rw [components] at hcurrent ⊢
  cases hsegments : p.segments with
  | nil => rfl
  | cons first rest =>
    simp only [hsegments, h.isAbsolute] at hcurrent ⊢
    by_cases hempty : first = ""
    · simp [hempty, List.filterMap_cons_none (innerComponent?_eq_none_iff.mpr (.inl rfl))]
    · by_cases hdot : first = "."
      · simp [hdot] at hcurrent
      · cases hfirst : innerComponent? first with
        | none => simp [hempty, hdot, hfirst]
        | some c => simp [hempty, hdot, hfirst]

theorem components_of_segments {first : String} {rest : List String} (h : p.segments = first :: rest) :
    p.components = (if first = "" then (if p.isAbsolute then [.root] else [])
      else if first = "." then [.current]
      else (innerComponent? first).toList) ++ rest.filterMap innerComponent? := by
  rw [components, h]

/-- A name with an extension is no segment that has a meaning of its own. -/
theorem ne_of_extension (stem : String) {extension : String} (h : 2 < extension.length) :
    ¬ (stem ++ extension = "" ∨ stem ++ extension = ".") ∧ stem ++ extension ≠ ".." := by
  have hne {other : String} (hother : other.length ≤ 2) : stem ++ extension ≠ other := by
    rintro rfl
    rw [String.length_append] at hother
    omega
  exact ⟨not_or.mpr ⟨hne (by decide), hne (by decide)⟩, hne (by decide)⟩

/-- The components of a path of names that is joined to another come behind those of the other. -/
theorem components_join (base : Path) {part : Path} (hpart : part.IsPlain) :
    (base.join part).components = base.components ++ part.components := by
  obtain ⟨habsolute, front, hjoined, hbase⟩ := base.join_relative hpart.isAbsolute
  cases front with
  | nil =>
    have hempty : base.segments = [""] := hbase.resolve_left base.segments_ne_nil
    have hrelative : base.isAbsolute = false := by
      rw [Bool.eq_false_iff, ne_eq, isAbsolute_iff_segments, hempty]
      rintro ⟨_, hrest, h⟩
      exact hrest (List.cons.inj h).2.symm
    have hpartSegments : (base.join part).components = part.components := by
      rw [components, components, hjoined, habsolute, hrelative, hpart.isAbsolute]
      rfl
    rw [hpartSegments, components_of_segments hempty, hrelative]
    rfl
  | cons first rest =>
    rw [List.cons_append] at hjoined hbase
    rw [components_of_segments hjoined, habsolute, List.filterMap_append, ← List.append_assoc,
      hpart.components_eq_filterMap]
    obtain hbase | hbase := hbase
    · rw [components_of_segments hbase]
    · rw [components_of_segments hbase, List.filterMap_append]
      simp [innerComponent?]

/-- A path of names only leads straight down. -/
theorem IsPlain.foldl_segments (h : p.IsPlain) (here : List String) :
    p.segments.foldl placeBehind here = here ++ p.names := by
  have hcomponents := h.components_eq_filterMap
  rw [foldl_placeBehind (hcomponents ▸ h), names, hcomponents]

end Path

end ProviderSdk
