import ProviderSdk.Proofs.Package.Members

/-!
# Packages without hand-written files

What is left of a package if its hand-written files are taken out, and with them the modules that
have nothing else. A hand-written file that is added leaves this part as it is, with its modules and
members in their order.
-/

namespace ProviderSdk

def Member.isOverlay : Member → Bool
  | .overlay _ => true
  | _ => false

def Module.withoutOverlays (m : Module) : Module :=
  { m with members := m.members.filter (fun member => !member.isOverlay) }

/-- The modules without their hand-written files. A module that has nothing else is left out. -/
def modulesWithoutOverlays (modules : List Module) : List Module :=
  (modules.map Module.withoutOverlays).filter (fun m => !m.members.isEmpty)

/-- The package without its hand-written files, and without the modules that have nothing else. -/
def Package.withoutOverlays (p : Package) : Package := { p with modules := modulesWithoutOverlays p.modules }

/-- Every module has members, and none of them is a hand-written file. -/
def AllGenerated (modules : List Module) : Prop :=
  ∀ m ∈ modules, m.members ≠ [] ∧ ∀ member ∈ m.members, member.isOverlay = false

variable {name : String} {member : Member} {m m' : Module} {modules modules' : List Module}

theorem Module.withoutOverlays_add (hmember : member.isOverlay = true) (h : m.add member = .ok m') :
    m'.withoutOverlays = m.withoutOverlays := by
  rw [Module.add_ok h]
  simp [Module.withoutOverlays, hmember]

theorem modulesWithoutOverlays_cons : modulesWithoutOverlays (m :: modules) =
    modulesWithoutOverlays [m] ++ modulesWithoutOverlays modules := by
  rw [modulesWithoutOverlays, modulesWithoutOverlays, modulesWithoutOverlays, ← List.filter_append]
  rfl

/-- A hand-written file that is added leaves all other members where they are. -/
theorem modulesWithoutOverlays_addToModules (hmember : member.isOverlay = true)
    (h : Package.addToModules name member modules = .ok modules') :
    modulesWithoutOverlays modules' = modulesWithoutOverlays modules := by
  have hnew : modulesWithoutOverlays [⟨name, [member]⟩] = [] := by
    simp [modulesWithoutOverlays, Module.withoutOverlays, hmember]
  induction modules generalizing modules' with
  | nil =>
    rw [Package.addToModules, Module.empty_add] at h
    cases h
    exact hnew
  | cons m rest ih =>
    rw [Package.addToModules] at h
    by_cases hname : name = m.name
    · rw [if_pos hname] at h
      obtain ⟨m', hadd, h⟩ := bind_eq_ok.mp h
      cases h
      simp only [modulesWithoutOverlays, List.map_cons, Module.withoutOverlays_add hmember hadd]
    · rw [if_neg hname] at h
      by_cases hbefore : name < m.name
      · rw [if_pos hbefore, Module.empty_add] at h
        cases h
        rw [modulesWithoutOverlays_cons, hnew]
        rfl
      · rw [if_neg hbefore] at h
        obtain ⟨rest', hrest, h⟩ := bind_eq_ok.mp h
        cases h
        rw [modulesWithoutOverlays_cons, ih hrest, ← modulesWithoutOverlays_cons]

theorem Package.withoutOverlays_addMember {p p' : Package} (hmember : member.isOverlay = true)
    (h : p.addMember name member = .ok p') : p'.withoutOverlays = p.withoutOverlays := by
  obtain ⟨modules, hmodules, h⟩ := bind_eq_ok.mp h
  cases h
  rw [Package.withoutOverlays, modulesWithoutOverlays_addToModules hmember hmodules]
  rfl

theorem AllGenerated.modulesWithoutOverlays_eq (h : AllGenerated modules) :
    modulesWithoutOverlays modules = modules := by
  have hmodule : ∀ m ∈ modules, m.withoutOverlays = m := by
    intro m hm
    rw [Module.withoutOverlays, List.filter_eq_self.mpr (fun member hmember => by simp [(h m hm).2
      member hmember])]
  rw [modulesWithoutOverlays, List.map_congr_left hmodule, List.map_id']
  exact List.filter_eq_self.mpr (fun m hm => by simp [(h m hm).1])

theorem AllGenerated.addToModules (hmodules : AllGenerated modules) (hmember : member.isOverlay = false)
    (h : Package.addToModules name member modules = .ok modules') : AllGenerated modules' := by
  have hnew : AllGenerated [⟨name, [member]⟩] := by simpa [AllGenerated] using hmember
  induction modules generalizing modules' with
  | nil =>
    rw [Package.addToModules, Module.empty_add] at h
    cases h
    exact hnew
  | cons m rest ih =>
    obtain ⟨hfirst, hrest⟩ := List.forall_mem_cons.mp hmodules
    rw [Package.addToModules] at h
    by_cases hname : name = m.name
    · rw [if_pos hname] at h
      obtain ⟨m', hadd, h⟩ := bind_eq_ok.mp h
      cases h
      refine List.forall_mem_cons.mpr ⟨?_, hrest⟩
      rw [Module.add_ok hadd]
      refine ⟨by simp, fun other hother => ?_⟩
      rcases List.mem_append.mp hother with hother | hother
      · exact hfirst.2 other hother
      · rw [List.mem_singleton.mp hother]
        exact hmember
    · rw [if_neg hname] at h
      by_cases hbefore : name < m.name
      · rw [if_pos hbefore, Module.empty_add] at h
        cases h
        exact List.forall_mem_cons.mpr ⟨hnew _ (List.mem_singleton_self _), hmodules⟩
      · rw [if_neg hbefore] at h
        obtain ⟨rest', hadd, h⟩ := bind_eq_ok.mp h
        cases h
        exact List.forall_mem_cons.mpr ⟨hfirst, ih hrest hadd⟩

theorem AllGenerated.addMember {p p' : Package} (hp : AllGenerated p.modules)
    (hmember : member.isOverlay = false) (h : p.addMember name member = .ok p') :
    AllGenerated p'.modules := by
  obtain ⟨modules, hmodules, h⟩ := bind_eq_ok.mp h
  cases h
  exact hp.addToModules hmember hmodules

end ProviderSdk
