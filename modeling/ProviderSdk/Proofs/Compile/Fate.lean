import Mathlib.Data.List.Forall2
import ProviderSdk.Compile.Assembly
import ProviderSdk.Compile.Resolution
import ProviderSdk.Proofs.Package.Members

/-!
# Fates

Whatever a package is to have becomes a member of it, or there is an error about it. One fate stands
for each placement, in the order of the placements; the members of the package and the errors are
those of the fates, with multiplicity.
-/

namespace ProviderSdk

theorem ResolvedProvider.cases_of_mem_placements {resolved : ResolvedProvider} {placement : Placement}
    (h : placement ∈ resolved.placements) :
    (∃ v ∈ resolved.config, placement = ⟨configModule, .variable v, v.rawName⟩) ∨
      (∃ r ∈ resolved.resources, placement = ⟨r.module, .resource r, r.rawName⟩) ∨
      ∃ f ∈ resolved.dataSources, placement = ⟨f.token.module, .dataSource f, f.rawName⟩ := by
  simpa [placements, eq_comm, or_assoc] using h

/-- What becomes of something that a package is to have. -/
inductive Fate where
  | placed (module : String) (member : Member)
  | refused (d : Diagnostic)

namespace Fate

def member? : Fate → Option (String × Member)
  | .placed module member => some (module, member)
  | .refused _ => none

def error? : Fate → Option Diagnostic
  | .placed _ _ => none
  | .refused d => some d

def members (fates : List Fate) : List (String × Member) := fates.filterMap member?

def errors (fates : List Fate) : List Diagnostic := fates.filterMap error?

variable (module : String) (member : Member) (d : Diagnostic) (fates others : List Fate)

@[simp] theorem members_nil : members [] = [] := rfl

@[simp] theorem errors_nil : errors [] = [] := rfl

@[simp] theorem members_placed :
    members (.placed module member :: fates) = (module, member) :: members fates := rfl

@[simp] theorem members_refused : members (.refused d :: fates) = members fates := rfl

@[simp] theorem errors_placed : errors (.placed module member :: fates) = errors fates := rfl

@[simp] theorem errors_refused : errors (.refused d :: fates) = d :: errors fates := rfl

@[simp] theorem members_append : members (fates ++ others) = members fates ++ members others :=
  List.filterMap_append

@[simp] theorem errors_append : errors (fates ++ others) = errors fates ++ errors others :=
  List.filterMap_append

end Fate

/-- What becomes of a placement in a package: it is taken, or its name is taken in the module. -/
inductive Placement.HasFate (package : String) (p : Placement) : Fate → Prop where
  | placed : Placement.HasFate package p (.placed p.module p.member)
  | refused : Placement.HasFate package p
      (.refused (Diagnostic.itemError "assemble" package p.item
        (MemberError.duplicate p.module p.member.name).message))

theorem exists_fate_place (package : Package) (errors : List Diagnostic) (p : Placement) :
    ∃ fate, p.HasFate package.name fate ∧
      (place (package, errors) p).1.placed.Perm (package.placed ++ Fate.members [fate]) ∧
      (place (package, errors) p).2 = errors ++ Fate.errors [fate] ∧
      (place (package, errors) p).1.name = package.name := by
  cases h : package.addMember p.module p.member with
  | ok package' =>
    refine ⟨_, .placed, ?_⟩
    simpa [place, h] using ⟨Package.placed_addMember h, Package.name_addMember h⟩
  | error e =>
    refine ⟨_, .refused, ?_⟩
    simp [place, h, Package.addMember_error h]

theorem exists_fates_foldl_place (package : Package) (errors : List Diagnostic)
    (placements : List Placement) :
    ∃ fates, List.Forall₂ (Placement.HasFate package.name) placements fates ∧
      (placements.foldl place (package, errors)).1.placed.Perm (package.placed ++ Fate.members fates) ∧
      (placements.foldl place (package, errors)).2 = errors ++ Fate.errors fates ∧
      (placements.foldl place (package, errors)).1.name = package.name := by
  induction placements generalizing package errors with
  | nil => exact ⟨[], .nil, by simp⟩
  | cons p rest ih =>
    obtain ⟨fate, hfate, hmembers, herrors, hname⟩ := exists_fate_place package errors p
    obtain ⟨fates, hfates, hmembers', herrors', hname'⟩ :=
      ih (place (package, errors) p).1 (place (package, errors) p).2
    rw [hname] at hfates hname'
    refine ⟨fate :: fates, .cons hfate hfates, ?_, ?_, hname'⟩
    · refine hmembers'.trans ?_
      have h := hmembers.append_right (Fate.members fates)
      rwa [List.append_assoc, ← Fate.members_append] at h
    · rw [List.foldl_cons, herrors', herrors, List.append_assoc, ← Fate.errors_append]
      rfl

theorem exists_fates_placeAll (package : Package) (placements : List Placement) :
    ∃ fates, List.Forall₂ (Placement.HasFate package.name) placements fates ∧
      (placeAll package placements).1.placed.Perm (package.placed ++ Fate.members fates) ∧
      (placeAll package placements).2 = Fate.errors fates ∧
      (placeAll package placements).1.name = package.name :=
  exists_fates_foldl_place package [] placements

theorem exists_placement_of_mem_members {package : String} {placements : List Placement} {fates : List Fate}
    (h : List.Forall₂ (Placement.HasFate package) placements fates) {module : String} {member : Member}
    (hmem : (module, member) ∈ Fate.members fates) :
    ∃ placement ∈ placements, placement.module = module ∧ placement.member = member := by
  obtain ⟨fate, hfate, heq⟩ := List.mem_filterMap.mp hmem
  obtain ⟨placement, hplacement, hhas⟩ := exists_of_forall₂_of_mem h hfate
  cases hhas with
  | placed =>
    cases heq
    exact ⟨placement, hplacement, rfl, rfl⟩
  | refused => cases heq

theorem members_of_errors_eq_nil {package : String} {placements : List Placement} {fates : List Fate}
    (h : List.Forall₂ (Placement.HasFate package) placements fates) (hnone : Fate.errors fates = []) :
    Fate.members fates = placements.map (fun placement => (placement.module, placement.member)) := by
  induction h with
  | nil => rfl
  | cons hfate _ ih =>
    cases hfate with
    | placed => rw [Fate.members_placed, List.map_cons, ih hnone]
    | refused => cases hnone

/-- What every member leaves that a package takes, all placements together leave. -/
theorem placeAll_preserves {holds : Package → Prop} {placements : List Placement}
    (hstep : ∀ placement ∈ placements, ∀ package package' : Package,
      package.addMember placement.module placement.member = .ok package' → holds package → holds package')
    {package : Package} (h : holds package) : holds (placeAll package placements).1 := by
  have hfold (state : Package × List Diagnostic) (hstate : holds state.1) :
      holds (placements.foldl place state).1 := by
    induction placements generalizing state with
    | nil => exact hstate
    | cons placement rest ih =>
      obtain ⟨hfirst, hrest⟩ := List.forall_mem_cons.mp hstep
      refine ih hrest _ ?_
      rw [place]
      cases hadd : state.1.addMember placement.module placement.member with
      | ok package => exact hfirst _ _ hadd hstate
      | error e => exact hstate
  exact hfold (package, []) h

/-- The fates of some things and then of others are those of the former and then of the latter. -/
theorem exists_fates_append {α : Type} {R : α → Fate → Prop} {as bs : List α} {fates : List Fate}
    (h : List.Forall₂ R (as ++ bs) fates) :
    ∃ first second, fates = first ++ second ∧ List.Forall₂ R as first ∧ List.Forall₂ R bs second := by
  induction as generalizing fates with
  | nil => exact ⟨[], fates, rfl, .nil, h⟩
  | cons a as ih =>
    rw [List.cons_append] at h
    cases h with | @cons _ fate _ rest ha h =>
    obtain ⟨first, second, rfl, hfirst, hsecond⟩ := ih h
    exact ⟨fate :: first, second, rfl, .cons ha hfirst, hsecond⟩

theorem errors_placements {package : String} {placements : List Placement} {fates : List Fate}
    (h : List.Forall₂ (Placement.HasFate package) placements fates) :
    ∀ d ∈ Fate.errors fates, d.isError = true ∧ d.phase = "assemble" := by
  induction h with
  | nil => simp
  | cons hfate _ ih =>
    cases hfate with
    | placed => simpa using ih
    | refused =>
      rw [Fate.errors_refused]
      intro d hd
      rcases List.mem_cons.mp hd with rfl | hd
      · exact ⟨rfl, rfl⟩
      · exact ih d hd

def Document.overlayPlacements (d : Document) (overlaysDirectory : Path) : Option Language → List Placement
  | none => []
  | some language =>
    match d.overlayTree? language with
    | none => []
    | some tree => (tree.placedFiles (overlaysDirectory.child language.name)).map
        (fun (module, file) => ⟨module, .overlay file, file.name⟩)

theorem Document.exists_overlay_of_mem_overlayPlacements {d : Document} {overlaysDirectory : Path}
    {language : Option Language} {placement : Placement}
    (h : placement ∈ d.overlayPlacements overlaysDirectory language) :
    ∃ file, placement.member = .overlay file := by
  unfold overlayPlacements at h
  split at h
  · cases h
  · split at h
    · cases h
    · obtain ⟨⟨_, file⟩, _, rfl⟩ := List.mem_map.mp h
      exact ⟨file, rfl⟩

/-- What is said about the hand-written files for a language. -/
def Document.overlayWarnings (d : Document) (language : Option Language) : List String :=
  ((language.bind d.overlayTree?).map OverlayTree.warnings).getD []

/-- A package is assembled in two steps: first the resolved members are placed, then the
hand-written files. -/
theorem Document.assemble_eq (d : Document) (name : String) (version : Version) (overlaysDirectory : Path)
    (language : Option Language) (resolved : ResolvedProvider) :
    d.assemble name version overlaysDirectory language resolved =
      let made := placeAll (d.emptyPackage name version) resolved.placements
      let files := placeAll made.1 (d.overlayPlacements overlaysDirectory language)
      (files.1, made.2 ++ (d.overlayWarnings language).map (Diagnostic.warning "assemble") ++ files.2) := by
  cases language with
  | none => simp [assemble, overlayPlacements, overlayWarnings, placeAll]
  | some language =>
    cases h : d.overlayTree? language with
    | none => simp [assemble, overlayPlacements, overlayWarnings, h, placeAll]
    | some tree => simp [assemble, overlayPlacements, overlayWarnings, h]

/-- An assembled package has the members among the fates of the resolved members and of the
hand-written files, and the errors are those among these fates. -/
theorem Document.exists_fates_assemble (d : Document) (name : String) (version : Version)
    (overlaysDirectory : Path) (language : Option Language) (resolved : ResolvedProvider) :
    ∃ made files, List.Forall₂ (Placement.HasFate name) resolved.placements made ∧
      List.Forall₂ (Placement.HasFate name) (d.overlayPlacements overlaysDirectory language) files ∧
      (d.assemble name version overlaysDirectory language resolved).1.placed.Perm
        (Fate.members (made ++ files)) ∧
      (d.assemble name version overlaysDirectory language resolved).2.filter Diagnostic.isError =
        Fate.errors (made ++ files) ∧
      ∀ x ∈ (d.assemble name version overlaysDirectory language resolved).2, x.phase = "assemble" := by
  obtain ⟨made, hmade, hmembers, herrors, hname⟩ :=
    exists_fates_placeAll (d.emptyPackage name version) resolved.placements
  obtain ⟨files, hfiles, hmembers', herrors', _⟩ :=
    exists_fates_placeAll (placeAll (d.emptyPackage name version) resolved.placements).1
      (d.overlayPlacements overlaysDirectory language)
  rw [hname] at hfiles
  have hmadeErrors := errors_placements hmade
  have hfileErrors := errors_placements hfiles
  refine ⟨made, files, hmade, hfiles, ?_, ?_, ?_⟩
  · rw [Document.assemble_eq, Fate.members_append]
    exact hmembers'.trans (hmembers.append_right _)
  · have hwarnings :
        ((d.overlayWarnings language).map (Diagnostic.warning "assemble")).filter Diagnostic.isError = [] :=
      List.filter_eq_nil_iff.mpr (by simp [Diagnostic.warning, Diagnostic.isError])
    rw [Document.assemble_eq, Fate.errors_append]
    simp only [herrors, herrors', List.filter_append, hwarnings, List.append_nil]
    rw [List.filter_eq_self.mpr (fun x hx => (hmadeErrors x hx).1),
      List.filter_eq_self.mpr (fun x hx => (hfileErrors x hx).1)]
  · intro x hx
    rw [Document.assemble_eq, List.mem_append, List.mem_append] at hx
    simp only [herrors, herrors'] at hx
    rcases hx with (hx | hx) | hx
    · exact (hmadeErrors x hx).2
    · obtain ⟨_, _, rfl⟩ := List.mem_map.mp hx
      rfl
    · exact (hfileErrors x hx).2

/-- What every member leaves that a package takes holds of an assembled package, if it holds of one
without members. -/
theorem Document.assemble_preserves {holds : Package → Prop}
    (hstep : ∀ module member, ∀ package package' : Package,
      package.addMember module member = .ok package' → holds package → holds package')
    (d : Document) (name : String) (version : Version) (overlaysDirectory : Path) (language : Option Language)
    (resolved : ResolvedProvider) (hempty : holds (d.emptyPackage name version)) :
    holds (d.assemble name version overlaysDirectory language resolved).1 := by
  have hplace {package : Package} (placements : List Placement) (h : holds package) :
      holds (placeAll package placements).1 := placeAll_preserves (fun _ _ => hstep _ _) h
  rw [Document.assemble_eq]
  exact hplace _ (hplace _ hempty)

/-- No module of an assembled package has two members of one name. -/
theorem Document.namesDistinct_assemble (d : Document) (name : String) (version : Version)
    (overlaysDirectory : Path) (language : Option Language) (resolved : ResolvedProvider) :
    (d.assemble name version overlaysDirectory language resolved).1.NamesDistinct :=
  d.assemble_preserves (fun _ _ _ _ hadd hpackage => Package.NamesDistinct.addMember hpackage hadd) _ _ _ _ _
    (fun m hm => by cases hm)

/-- The modules of an assembled package stand in the order of their names. -/
theorem Document.modulesAscend_assemble (d : Document) (name : String) (version : Version)
    (overlaysDirectory : Path) (language : Option Language) (resolved : ResolvedProvider) :
    (d.assemble name version overlaysDirectory language resolved).1.ModulesAscend :=
  d.assemble_preserves (fun _ _ _ _ hadd hpackage => Package.ModulesAscend.addMember hpackage hadd)
    _ _ _ _ _ .nil

end ProviderSdk
