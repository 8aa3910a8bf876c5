import Mathlib.Data.String.Basic
import ProviderSdk.Package.Tree
import ProviderSdk.Proofs.Results

/-!
# Members of packages

What stands in a package, as members with the modules that they stand in. A package that takes a
member has what it had before, and this member in the module that it was added to.
-/

namespace ProviderSdk

def Module.placed (m : Module) : List (String × Member) := m.members.map (fun member => (m.name, member))

def Package.placed (p : Package) : List (String × Member) := p.modules.flatMap Module.placed

theorem mem_of_mem_picked {α : Type} {pick : Member → Option α} {make : α → Member}
    (hpick : ∀ member a, pick member = some a → member = make a) {members : List Member} {a : α}
    (h : a ∈ members.filterMap pick) : make a ∈ members := by
  obtain ⟨member, hmember, ha⟩ := List.mem_filterMap.mp h
  rwa [← hpick member a ha]

theorem Module.mem_members_of_mem_resources {m : Module} {r : Resource} (h : r ∈ m.resources) :
    .resource r ∈ m.members := by
  refine mem_of_mem_picked (fun member r' hr => ?_) h
  cases member <;> cases hr
  rfl

theorem Module.mem_members_of_mem_dataSources {m : Module} {f : DataSource} (h : f ∈ m.dataSources) :
    .dataSource f ∈ m.members := by
  refine mem_of_mem_picked (fun member f' hf => ?_) h
  cases member <;> cases hf
  rfl

theorem Module.mem_members_of_mem_configVariables {m : Module} {v : Property} (h : v ∈ m.configVariables) :
    .variable v ∈ m.members := by
  refine mem_of_mem_picked (fun member v' hv => ?_) h
  cases member <;> cases hv
  rfl

theorem Package.mem_placed_of_mem_configVariables {p : Package} {m : Module} (hm : m ∈ p.modules)
    {v : Property} (hv : v ∈ m.configVariables) : (m.name, .variable v) ∈ p.placed :=
  List.mem_flatMap.mpr ⟨m, hm, List.mem_map_of_mem (Module.mem_members_of_mem_configVariables hv)⟩

theorem Module.add_ok {m m' : Module} {member : Member} (h : m.add member = .ok m') :
    m' = { m with members := m.members ++ [member] } := by
  unfold Module.add at h
  split at h
  · cases h
  · exact (Except.ok.inj h).symm

theorem Module.add_error {m : Module} {member : Member} {e : MemberError} (h : m.add member = .error e) :
    e = .duplicate m.name member.name := by
  unfold Module.add at h
  split at h
  · exact (Except.error.inj h).symm
  · cases h

theorem Module.placed_add {m m' : Module} {member : Member} (h : m.add member = .ok m') :
    m'.placed = m.placed ++ [(m.name, member)] := by
  rw [Module.add_ok h]
  simp [Module.placed]

theorem Module.empty_add (name : String) (member : Member) :
    (Module.empty name).add member = .ok ⟨name, [member]⟩ := by
  simp [Module.add, Module.has, Module.empty]

namespace Package

theorem placed_addToModules {name : String} {member : Member} {modules modules' : List Module}
    (h : addToModules name member modules = .ok modules') :
    (modules'.flatMap Module.placed).Perm (modules.flatMap Module.placed ++ [(name, member)]) := by
  induction modules generalizing modules' with
  | nil =>
    rw [addToModules, Module.empty_add] at h
    cases h
    exact .refl _
  | cons m rest ih =>
    rw [addToModules] at h
    by_cases hname : name = m.name
    · rw [if_pos hname] at h
      obtain ⟨m', hadd, h⟩ := bind_eq_ok.mp h
      cases h
      rw [List.flatMap_cons, List.flatMap_cons, Module.placed_add hadd, ← hname, List.append_assoc,
        List.append_assoc]
      exact List.Perm.append_left _ List.perm_append_comm
    · rw [if_neg hname] at h
      by_cases hbefore : name < m.name
      · rw [if_pos hbefore, Module.empty_add] at h
        cases h
        exact (List.perm_append_singleton _ _).symm
      · rw [if_neg hbefore] at h
        obtain ⟨rest', hrest, h⟩ := bind_eq_ok.mp h
        cases h
        rw [List.flatMap_cons, List.flatMap_cons, List.append_assoc]
        exact List.Perm.append_left _ (ih hrest)

theorem addToModules_error {name : String} {member : Member} {modules : List Module} {e : MemberError}
    (h : addToModules name member modules = .error e) : e = .duplicate name member.name := by
  induction modules with
  | nil =>
    rw [addToModules, Module.empty_add] at h
    cases h
  | cons m rest ih =>
    rw [addToModules] at h
    by_cases hname : name = m.name
    · rw [if_pos hname] at h
      obtain hadd | ⟨_, _, h⟩ := bind_eq_error.mp h
      · rw [hname]
        exact Module.add_error hadd
      · cases h
    · rw [if_neg hname] at h
      by_cases hbefore : name < m.name
      · rw [if_pos hbefore, Module.empty_add] at h
        cases h
      · rw [if_neg hbefore] at h
        obtain hrest | ⟨_, _, h⟩ := bind_eq_error.mp h
        · exact ih hrest
        · cases h

variable {p p' : Package} {module : String} {member : Member}

theorem placed_addMember (h : p.addMember module member = .ok p') :
    p'.placed.Perm (p.placed ++ [(module, member)]) := by
  obtain ⟨modules, hmodules, h⟩ := bind_eq_ok.mp h
  cases h
  exact placed_addToModules hmodules

theorem name_addMember (h : p.addMember module member = .ok p') : p'.name = p.name := by
  obtain ⟨modules, _, h⟩ := bind_eq_ok.mp h
  cases h
  rfl

theorem addMember_error {e : MemberError} (h : p.addMember module member = .error e) :
    e = .duplicate module member.name := by
  obtain h | ⟨_, _, h⟩ := bind_eq_error.mp h
  · exact addToModules_error h
  · cases h

end Package

def Module.NamesDistinct (m : Module) : Prop := (m.members.map Member.name).Nodup

/-- No two members of one module have the same name. -/
def Package.NamesDistinct (p : Package) : Prop := ∀ m ∈ p.modules, m.NamesDistinct

theorem Module.NamesDistinct.add {m m' : Module} {member : Member} (hm : m.NamesDistinct)
    (h : m.add member = .ok m') :
    m'.NamesDistinct := by
  have hnew : m.has member.name = false := by
    unfold Module.add at h
    split at h
    · cases h
    · next hnot => simpa using hnot
  rw [Module.add_ok h, NamesDistinct, List.map_append, List.nodup_append]
  refine ⟨hm, by simp, fun name hname other hother heq => ?_⟩
  obtain ⟨old, hold, hsame⟩ := List.mem_map.mp hname
  rw [Module.has, List.any_eq_false] at hnew
  refine hnew old hold ?_
  rw [hsame, heq, List.mem_singleton.mp hother]
  exact beq_self_eq_true _

theorem Module.NamesDistinct.dataSources {m : Module} (hm : m.NamesDistinct) :
    (m.dataSources.map (·.name)).Nodup := by
  refine hm.sublist ?_
  rw [Module.dataSources]
  induction m.members with
  | nil => exact .slnil
  | cons member rest ih =>
    cases member with
    | dataSource f => exact ih.cons_cons _
    | _ => exact ih.cons _

theorem Module.NamesDistinct.configVariables {m : Module} (hm : m.NamesDistinct) :
    (m.configVariables.map (·.name)).Nodup := by
  refine hm.sublist ?_
  rw [Module.configVariables]
  induction m.members with
  | nil => exact .slnil
  | cons member rest ih =>
    cases member with
    | resource | dataSource | overlay => exact ih.cons _
    | _ => exact ih.cons_cons _

namespace Package

variable {p p' : Package} {module : String} {member : Member}

theorem namesDistinct_addToModules {name : String} {member : Member} {modules modules' : List Module}
    (hmodules : ∀ m ∈ modules, m.NamesDistinct) (h : addToModules name member modules = .ok modules') :
    ∀ m ∈ modules', m.NamesDistinct := by
  have hnew : Module.NamesDistinct ⟨name, [member]⟩ := by simp [Module.NamesDistinct]
  induction modules generalizing modules' with
  | nil =>
    rw [addToModules, Module.empty_add] at h
    cases h
    simpa using hnew
  | cons m rest ih =>
    obtain ⟨hfirst, hrest⟩ := List.forall_mem_cons.mp hmodules
    rw [addToModules] at h
    by_cases hname : name = m.name
    · rw [if_pos hname] at h
      obtain ⟨m', hadd, h⟩ := bind_eq_ok.mp h
      cases h
      exact List.forall_mem_cons.mpr ⟨hfirst.add hadd, hrest⟩
    · rw [if_neg hname] at h
      by_cases hbefore : name < m.name
      · rw [if_pos hbefore, Module.empty_add] at h
        cases h
        exact List.forall_mem_cons.mpr ⟨hnew, hmodules⟩
      · rw [if_neg hbefore] at h
        obtain ⟨rest', hadd, h⟩ := bind_eq_ok.mp h
        cases h
        exact List.forall_mem_cons.mpr ⟨hfirst, ih hrest hadd⟩

theorem NamesDistinct.addMember (hp : p.NamesDistinct) (h : p.addMember module member = .ok p') :
    p'.NamesDistinct := by
  obtain ⟨modules, hmodules, h⟩ := bind_eq_ok.mp h
  cases h
  exact namesDistinct_addToModules hp hmodules

end Package

/-- The modules of a package stand in the order of their names, and no two have the same name. -/
def Package.ModulesAscend (p : Package) : Prop := p.modules.Pairwise (fun m m' => m.name < m'.name)

namespace Package

variable {p p' : Package} {module : String} {member : Member}

theorem name_of_mem_addToModules {name : String} {modules modules' : List Module}
    (h : addToModules name member modules = .ok modules') {m : Module} (hm : m ∈ modules') :
    m.name = name ∨ m.name ∈ modules.map (·.name) := by
  induction modules generalizing modules' with
  | nil =>
    rw [addToModules, Module.empty_add] at h
    cases h
    exact .inl (congrArg Module.name (List.mem_singleton.mp hm))
  | cons first rest ih =>
    rw [addToModules] at h
    split at h
    · next hname =>
      obtain ⟨first', hadd, h⟩ := bind_eq_ok.mp h
      cases h
      rcases List.mem_cons.mp hm with rfl | hm
      · rw [Module.add_ok hadd]
        exact .inl hname.symm
      · exact .inr (List.mem_cons_of_mem _ (List.mem_map_of_mem hm))
    · split at h
      · rw [Module.empty_add] at h
        cases h
        rcases List.mem_cons.mp hm with rfl | hm
        · exact .inl rfl
        · exact .inr (List.mem_map_of_mem hm)
      · obtain ⟨rest', hadd, h⟩ := bind_eq_ok.mp h
        cases h
        rcases List.mem_cons.mp hm with rfl | hm
        · exact .inr List.mem_cons_self
        · exact (ih hadd hm).imp_right (List.mem_cons_of_mem _)

theorem modulesAscend_addToModules {name : String} {modules modules' : List Module}
    (hmodules : modules.Pairwise (fun m m' => m.name < m'.name))
    (h : addToModules name member modules = .ok modules') :
    modules'.Pairwise (fun m m' => m.name < m'.name) := by
  induction modules generalizing modules' with
  | nil =>
    rw [addToModules, Module.empty_add] at h
    cases h
    exact List.pairwise_singleton _ _
  | cons first rest ih =>
    obtain ⟨hfirst, hrest⟩ := List.pairwise_cons.mp hmodules
    rw [addToModules] at h
    split at h
    · obtain ⟨first', hadd, h⟩ := bind_eq_ok.mp h
      cases h
      rw [Module.add_ok hadd]
      exact List.pairwise_cons.mpr ⟨hfirst, hrest⟩
    · next hne =>
      split at h
      · next hbefore =>
        rw [Module.empty_add] at h
        cases h
        refine List.pairwise_cons.mpr ⟨List.forall_mem_cons.mpr ⟨hbefore, fun m hm => ?_⟩, hmodules⟩
        exact lt_trans hbefore (hfirst m hm)
      · next hbehind =>
        obtain ⟨rest', hadd, h⟩ := bind_eq_ok.mp h
        cases h
        refine List.pairwise_cons.mpr ⟨fun m hm => ?_, ih hrest hadd⟩
        rcases name_of_mem_addToModules hadd hm with heq | hold
        · rw [heq]
          exact lt_of_le_of_ne (not_lt.mp hbehind) (Ne.symm hne)
        · obtain ⟨old, hold, heq⟩ := List.mem_map.mp hold
          rw [← heq]
          exact hfirst old hold

theorem ModulesAscend.addMember (hp : p.ModulesAscend) (h : p.addMember module member = .ok p') :
    p'.ModulesAscend := by
  obtain ⟨modules, hmodules, h⟩ := bind_eq_ok.mp h
  cases h
  exact modulesAscend_addToModules hp hmodules

def takenNames (p : Package) : List (String × String) :=
  p.placed.map (fun (module, member) => (module, member.name))

theorem mem_takenNames {name : String} :
    (module, name) ∈ p.takenNames ↔ ∃ m ∈ p.modules, m.name = module ∧ m.has name = true := by
  simp only [takenNames, placed, Module.placed, Module.has, List.mem_map, List.mem_flatMap, List.any_eq_true,
    beq_iff_eq, Prod.mk.injEq]
  constructor
  · rintro ⟨_, ⟨m, hm, member, hmember, rfl⟩, hmodule, hname⟩
    exact ⟨m, hm, hmodule, member, hmember, hname⟩
  · rintro ⟨m, hm, hmodule, member, hmember, hname⟩
    exact ⟨_, ⟨m, hm, member, hmember, rfl⟩, hmodule, hname⟩

theorem addToModules_eq_error_iff {name : String} {modules : List Module}
    (hmodules : modules.Pairwise (fun m m' => m.name < m'.name)) :
    (∃ e, addToModules name member modules = .error e) ↔
      ∃ m ∈ modules, m.name = name ∧ m.has member.name = true := by
  induction modules with
  | nil => simp [addToModules, Module.empty_add, bind, Except.bind, pure, Except.pure]
  | cons m rest ih =>
    obtain ⟨hfirst, hrest⟩ := List.pairwise_cons.mp hmodules
    rw [addToModules, List.exists_mem_cons_iff]
    split
    · next hname =>
      have hlater : ¬ ∃ m' ∈ rest, m'.name = name ∧ m'.has member.name = true := by
        rintro ⟨m', hm', hsame, -⟩
        exact absurd (hfirst m' hm') (by rw [hsame, hname]; exact lt_irrefl _)
      simp only [or_iff_left hlater, bind_pure_eq_error, Module.add]
      split
      · next htaken => exact ⟨fun _ => ⟨hname.symm, htaken⟩, fun _ => ⟨_, rfl⟩⟩
      · next hfree => simp [hfree]
    · next hne =>
      rw [or_iff_right (fun h => hne h.1.symm)]
      split
      · next hbefore =>
        have hlater : ¬ ∃ m' ∈ rest, m'.name = name ∧ m'.has member.name = true := by
          rintro ⟨m', hm', hsame, -⟩
          exact absurd (hbefore.trans (hfirst m' hm')) (by rw [hsame]; exact lt_irrefl _)
        simp [Module.empty_add, hlater]
      · simp only [bind_pure_eq_error]
        exact ih hrest

theorem addMember_eq_error_iff (hp : p.ModulesAscend) :
    (∃ e, p.addMember module member = .error e) ↔ (module, member.name) ∈ p.takenNames := by
  simp only [mem_takenNames, ← addToModules_eq_error_iff hp, addMember, bind_pure_eq_error]

theorem mem_takenNames_addMember (h : p.addMember module member = .ok p') {name : String × String} :
    name ∈ p'.takenNames ↔ name ∈ (module, member.name) :: p.takenNames := by
  have hperm := (placed_addMember h).map (fun (module, member) => (module, member.name))
  rw [takenNames, hperm.mem_iff, List.map_append, List.mem_append, List.mem_cons, or_comm]
  exact or_congr_left List.mem_singleton

end Package

end ProviderSdk
