import ProviderSdk.Proofs.Compile.Fate

/-!
# Contents of modules

What the module of a name holds, member by member in their order. A member that is added comes
behind the members of its own module and leaves all others as they are; so members that are all
taken come, module by module, in the order in which they were to be placed.
-/

namespace ProviderSdk

def membersOf (modules : List Module) (name : String) : List Member :=
  ((modules.find? (fun m => m.name == name)).map Module.members).getD []

def Package.membersIn (p : Package) (name : String) : List Member := membersOf p.modules name

variable {name : String} {member : Member} {m : Module} {modules modules' : List Module}

theorem membersOf_cons (m : Module) (modules : List Module) (name : String) :
    membersOf (m :: modules) name = if m.name = name then m.members else membersOf modules name := by
  rw [membersOf, List.find?_cons]
  by_cases h : m.name = name
  · simp [h]
  · have hne : (m.name == name) = false := by simpa using h
    rw [if_neg h, hne]
    rfl

theorem membersOf_eq_nil (h : ∀ m ∈ modules, m.name ≠ name) : membersOf modules name = [] := by
  have hnone : modules.find? (fun m => m.name == name) = none := by simpa [List.find?_eq_none] using h
  rw [membersOf, hnone]
  rfl

/-- A member comes behind those of its module, and the other modules hold what they held. -/
theorem membersOf_addToModules (hmodules : modules.Pairwise (fun m m' => m.name < m'.name))
    (h : Package.addToModules name member modules = .ok modules') (other : String) :
    membersOf modules' other = membersOf modules other ++ if name = other then [member] else [] := by
  induction modules generalizing modules' with
  | nil =>
    rw [Package.addToModules, Module.empty_add] at h
    cases h
    rw [membersOf_cons]
    rfl
  | cons m rest ih =>
    obtain ⟨hfirst, hrest⟩ := List.pairwise_cons.mp hmodules
    rw [Package.addToModules] at h
    by_cases hname : name = m.name
    · rw [if_pos hname] at h
      obtain ⟨m', hadd, h⟩ := bind_eq_ok.mp h
      cases h
      rw [membersOf_cons, membersOf_cons, Module.add_ok hadd, hname]
      split <;> simp
    · rw [if_neg hname] at h
      by_cases hbefore : name < m.name
      · rw [if_pos hbefore, Module.empty_add] at h
        cases h
        have hnew : membersOf (m :: rest) name = [] := by
          refine membersOf_eq_nil (List.forall_mem_cons.mpr ⟨Ne.symm hname, fun m' hm' => ?_⟩)
          exact ne_of_gt (hbefore.trans (hfirst m' hm'))
        rw [membersOf_cons]
        split
        · next heq =>
          rw [← heq, hnew]
          rfl
        · exact (List.append_nil _).symm
      · rw [if_neg hbefore] at h
        obtain ⟨rest', hadd, h⟩ := bind_eq_ok.mp h
        cases h
        rw [membersOf_cons, membersOf_cons, ih hrest hadd]
        split
        · next heq => rw [if_neg (fun h => hname (h.trans heq.symm)), List.append_nil]
        · rfl

theorem Package.membersIn_addMember {p p' : Package} {module : String} (hp : p.ModulesAscend)
    (h : p.addMember module member = .ok p') (name : String) :
    p'.membersIn name = p.membersIn name ++ if module = name then [member] else [] := by
  obtain ⟨modules, hmodules, h⟩ := bind_eq_ok.mp h
  cases h
  exact membersOf_addToModules hp hmodules name

def membersFor (name : String) (placements : List Placement) : List Member :=
  (placements.filter (fun placement => placement.module == name)).map Placement.member

@[simp] theorem membersFor_append (name : String) (placements others : List Placement) :
    membersFor name (placements ++ others) = membersFor name placements ++ membersFor name others := by
  simp [membersFor]

theorem membersFor_cons (name : String) (placement : Placement) (placements : List Placement) :
    membersFor name (placement :: placements) =
      (if placement.module = name then [placement.member] else []) ++ membersFor name placements := by
  by_cases h : placement.module = name <;> simp [membersFor, h]

/-- If all members are taken, they stand in their modules behind what was there, in the order of the
placements. -/
theorem membersIn_placeAll {package : Package} {placements : List Placement}
    (hpackage : package.ModulesAscend) (hnone : (placeAll package placements).2 = []) (name : String) :
    (placeAll package placements).1.membersIn name =
      package.membersIn name ++ membersFor name placements := by
  have hfold (state : Package × List Diagnostic) (hstate : state.1.ModulesAscend)
      (hnone : (placements.foldl place state).2 = []) :
      (placements.foldl place state).1.membersIn name =
        state.1.membersIn name ++ membersFor name placements := by
    clear * - hstate hnone
    induction placements generalizing state with
    | nil => simp [membersFor]
    | cons placement rest ih =>
      rw [List.foldl_cons] at hnone ⊢
      cases hadd : state.1.addMember placement.module placement.member with
      | ok package =>
        have hplace : place state placement = (package, state.2) := by simp [place, hadd]
        rw [hplace] at hnone ⊢
        rw [ih _ (hstate.addMember hadd) hnone, Package.membersIn_addMember hstate hadd, membersFor_cons,
          List.append_assoc]
      | error e =>
        exfalso
        obtain ⟨fates, -, -, herrors, -⟩ :=
          exists_fates_foldl_place (place state placement).1 (place state placement).2 rest
        rw [hnone] at herrors
        simp [place, hadd] at herrors
  exact hfold (package, []) hpackage hnone

end ProviderSdk
