import Mathlib.Data.List.Nodup
import ProviderSdk.Proofs.Package.Contents

/-!
# Packages filled call by call

A package may be filled in place: a call finds the module of a name, which is made if it is not
there, and only then is the member put into it or refused. What a call leaves is what adding the
member gives, and a call that is refused leaves the package as it was, without a new module. After
any calls, refused ones among them, a module holds the members of the calls that were taken for it,
in their order, and a call is refused exactly if one that was taken gave a member of the same name
to the same module.
-/

namespace ProviderSdk

/-- What a module is after a member was put into it or refused, and the error of a refusal. -/
def Module.attempt (m : Module) (member : Member) : Module × Option MemberError :=
  match m.add member with
  | .ok m' => (m', none)
  | .error e => (m, some e)

/-- What modules are after a call with a member for the module of a name. A module that is made for
the call stays even if the member is refused. -/
def Package.attemptIn (name : String) (member : Member) : List Module → List Module × Option MemberError
  | [] =>
    let (m, error) := (Module.empty name).attempt member
    ([m], error)
  | m :: rest =>
    if name = m.name then
      let (m, error) := m.attempt member
      (m :: rest, error)
    else if name < m.name then
      let (new, error) := (Module.empty name).attempt member
      (new :: m :: rest, error)
    else
      let (rest, error) := attemptIn name member rest
      (m :: rest, error)

/-- What a package is after a call, and the error of a refusal. -/
def Package.attempt (p : Package) (module : String) (member : Member) : Package × Option MemberError :=
  let (modules, error) := attemptIn module member p.modules
  ({ p with modules := modules }, error)

variable {name module : String} {member : Member} {modules : List Module} {p : Package}

theorem Module.attempt_ok {m m' : Module} (h : m.add member = .ok m') : m.attempt member = (m', none) := by
  rw [attempt, h]

theorem Module.attempt_error {m : Module} {e : MemberError} (h : m.add member = .error e) :
    m.attempt member = (m, some e) := by
  rw [attempt, h]

namespace Package

/-- Nothing is left of a call that is refused: a module that was made for it would have taken the member. -/
theorem attemptIn_cases (name : String) (member : Member) (modules : List Module) :
    (∃ modules', addToModules name member modules = .ok modules' ∧
      attemptIn name member modules = (modules', none)) ∨
      ∃ e, addToModules name member modules = .error e ∧
        attemptIn name member modules = (modules, some e) := by
  have hnew : (Module.empty name).attempt member = (⟨name, [member]⟩, none) :=
    Module.attempt_ok (Module.empty_add name member)
  induction modules with
  | nil =>
    rw [addToModules, attemptIn, Module.empty_add, hnew]
    exact .inl ⟨_, rfl, rfl⟩
  | cons m rest ih =>
    rw [addToModules, attemptIn]
    by_cases hname : name = m.name
    · rw [if_pos hname, if_pos hname]
      cases hadd : m.add member with
      | ok m' =>
        rw [Module.attempt_ok hadd]
        exact .inl ⟨_, rfl, rfl⟩
      | error e =>
        rw [Module.attempt_error hadd]
        exact .inr ⟨_, rfl, rfl⟩
    · rw [if_neg hname, if_neg hname]
      by_cases hbefore : name < m.name
      · rw [if_pos hbefore, if_pos hbefore, Module.empty_add, hnew]
        exact .inl ⟨_, rfl, rfl⟩
      · rw [if_neg hbefore, if_neg hbefore]
        obtain ⟨rest', hadd, hattempt⟩ | ⟨e, hadd, hattempt⟩ := ih
        · rw [hadd, hattempt]
          exact .inl ⟨_, rfl, rfl⟩
        · rw [hadd, hattempt]
          exact .inr ⟨_, rfl, rfl⟩

/-- A call leaves the package with the member if it is added, and else the package as it was. -/
theorem attempt_cases (p : Package) (module : String) (member : Member) :
    (∃ p', p.addMember module member = .ok p' ∧ p.attempt module member = (p', none)) ∨
      ∃ e, p.addMember module member = .error e ∧ p.attempt module member = (p, some e) := by
  obtain ⟨modules', hadd, hattempt⟩ | ⟨e, hadd, hattempt⟩ := attemptIn_cases module member p.modules
  · exact .inl ⟨_, by rw [addMember, hadd]; rfl, by rw [attempt, hattempt]⟩
  · exact .inr ⟨e, by rw [addMember, hadd]; rfl, by rw [attempt, hattempt]⟩

theorem isSome_attempt_iff :
    (p.attempt module member).2.isSome ↔ ∃ e, p.addMember module member = .error e := by
  obtain ⟨p', hadd, hattempt⟩ | ⟨e, hadd, hattempt⟩ := p.attempt_cases module member
  · simp [hadd, hattempt]
  · simp [hadd, hattempt]

/-- A refusal names the module and the member, and leaves the package as it was. -/
theorem attempt_error {e : MemberError} (h : (p.attempt module member).2 = some e) :
    e = .duplicate module member.name ∧ (p.attempt module member).1 = p := by
  obtain ⟨p', -, hattempt⟩ | ⟨e', hadd, hattempt⟩ := p.attempt_cases module member
  · rw [hattempt] at h
    cases h
  · rw [hattempt] at h ⊢
    cases h
    exact ⟨addMember_error hadd, rfl⟩

def record (state : Package × List (String × Member)) (call : String × Member) :
    Package × List (String × Member) :=
  match state.1.attempt call.1 call.2 with
  | (p, none) => (p, state.2 ++ [call])
  | (p, some _) => (p, state.2)

/-- What a package is after calls, and those of them that were taken, in their order. -/
def attempts (p : Package) (calls : List (String × Member)) : Package × List (String × Member) :=
  calls.foldl record (p, [])

def membersAt (module : String) (calls : List (String × Member)) : List Member :=
  (calls.filter (fun call => call.1 == module)).map Prod.snd

theorem membersAt_concat (module : String) (calls : List (String × Member)) (call : String × Member) :
    membersAt module (calls ++ [call]) =
      membersAt module calls ++ if call.1 = module then [call.2] else [] := by
  by_cases h : call.1 = module <;> simp [membersAt, h]

theorem mem_membersAt {calls : List (String × Member)} :
    member ∈ membersAt module calls ↔ (module, member) ∈ calls := by
  simp [membersAt]

theorem mem_modules_unique (hp : p.ModulesAscend) {m m' : Module} (hm : m ∈ p.modules) (hm' : m' ∈ p.modules)
    (h : m.name = m'.name) : m = m' := by
  have hnames : (p.modules.map Module.name).Nodup := List.pairwise_map.mpr (hp.imp ne_of_lt)
  exact List.inj_on_of_nodup_map hnames hm hm' h

/-- Looking a name up finds the module that has it. -/
theorem module?_eq_some_iff (hp : p.ModulesAscend) {m : Module} :
    p.module? name = some m ↔ m ∈ p.modules ∧ m.name = name := by
  constructor
  · intro h
    exact ⟨List.mem_of_find?_eq_some h, by simpa using List.find?_some h⟩
  · rintro ⟨hm, rfl⟩
    cases hfound : p.module? m.name with
    | none => exact absurd (List.find?_eq_none.mp hfound m hm) (by simp)
    | some m' =>
      have hname : m'.name = m.name := by simpa using List.find?_some hfound
      rw [mem_modules_unique hp (List.mem_of_find?_eq_some hfound) hm hname]

theorem membersIn_eq (hp : p.ModulesAscend) {m : Module} (hm : m ∈ p.modules) :
    p.membersIn m.name = m.members := by
  have hfound : p.module? m.name = some m := (module?_eq_some_iff hp).mpr ⟨hm, rfl⟩
  rw [membersIn, membersOf, show p.modules.find? (fun m' => m'.name == m.name) = some m from hfound]
  rfl

theorem mem_membersIn_iff (hp : p.ModulesAscend) :
    member ∈ p.membersIn module ↔ ∃ m ∈ p.modules, m.name = module ∧ member ∈ m.members := by
  constructor
  · intro h
    rw [membersIn, membersOf] at h
    cases hfound : p.modules.find? (fun m => m.name == module) with
    | none => simp [hfound] at h
    | some m =>
      rw [hfound] at h
      exact ⟨m, List.mem_of_find?_eq_some hfound, by simpa using List.find?_some hfound, h⟩
  · rintro ⟨m, hm, rfl, h⟩
    rwa [membersIn_eq hp hm]

/-- A package holds what the calls that it has taken put into it. -/
structure FilledBy (p : Package) (taken : List (String × Member)) : Prop where
  ascend : p.ModulesAscend
  distinct : p.NamesDistinct
  filled : ∀ m ∈ p.modules, m.members ≠ []
  members : ∀ module, p.membersIn module = membersAt module taken

theorem filledBy_of_modules_eq_nil (h : p.modules = []) : p.FilledBy [] where
  ascend := by rw [ModulesAscend, h]; exact .nil
  distinct := by simp [NamesDistinct, h]
  filled := by simp [h]
  members module := by rw [membersIn, h]; rfl

variable {taken : List (String × Member)}

theorem FilledBy.mem_takenNames_iff (h : p.FilledBy taken) :
    (module, name) ∈ p.takenNames ↔ ∃ call ∈ taken, call.1 = module ∧ call.2.name = name := by
  have hmembers : (∃ m ∈ p.modules, m.name = module ∧ m.has name = true) ↔
      ∃ member ∈ p.membersIn module, member.name = name := by
    simp only [Module.has, List.any_eq_true, beq_iff_eq, mem_membersIn_iff h.ascend]
    constructor
    · rintro ⟨m, hm, hmodule, member, hmember, hname⟩
      exact ⟨member, ⟨m, hm, hmodule, hmember⟩, hname⟩
    · rintro ⟨member, ⟨m, hm, hmodule, hmember⟩, hname⟩
      exact ⟨m, hm, hmodule, member, hmember, hname⟩
  rw [mem_takenNames, hmembers, h.members]
  constructor
  · rintro ⟨member, hmember, hname⟩
    exact ⟨_, mem_membersAt.mp hmember, rfl, hname⟩
  · rintro ⟨⟨_, member⟩, hcall, rfl, hname⟩
    exact ⟨member, mem_membersAt.mpr hcall, hname⟩

theorem FilledBy.addMember {p' : Package} (h : p.FilledBy taken) (hadd : p.addMember module member = .ok p') :
    p'.FilledBy (taken ++ [(module, member)]) where
  ascend := h.ascend.addMember hadd
  distinct := h.distinct.addMember hadd
  members other := by rw [membersIn_addMember h.ascend hadd, h.members, membersAt_concat]
  filled m hm := by
    rw [← membersIn_eq (h.ascend.addMember hadd) hm, membersIn_addMember h.ascend hadd]
    by_cases hmodule : module = m.name
    · simp [hmodule]
    · obtain ⟨modules', hmodules, hp'⟩ := bind_eq_ok.mp hadd
      cases hp'
      obtain ⟨old, hold, hname⟩ := List.mem_map.mp
        ((name_of_mem_addToModules hmodules hm).resolve_left (fun heq => hmodule heq.symm))
      rw [← hname, membersIn_eq h.ascend hold]
      simpa [hname, hmodule] using h.filled old hold

theorem FilledBy.isSome_attempt_iff (h : p.FilledBy taken) :
    (p.attempt module member).2.isSome ↔ ∃ call ∈ taken, call.1 = module ∧ call.2.name = member.name := by
  rw [Package.isSome_attempt_iff, addMember_eq_error_iff h.ascend, h.mem_takenNames_iff]

/-- What a package holds after a call is what the calls that it has taken put into it. -/
theorem FilledBy.record {state : Package × List (String × Member)} (h : state.1.FilledBy state.2)
    (call : String × Member) : (record state call).1.FilledBy (record state call).2 := by
  rw [Package.record]
  obtain ⟨p', hadd, hattempt⟩ | ⟨e, -, hattempt⟩ := state.1.attempt_cases call.1 call.2
  · rw [hattempt]
    exact h.addMember hadd
  · rw [hattempt]
    exact h

theorem FilledBy.foldl_record {state : Package × List (String × Member)} (h : state.1.FilledBy state.2)
    (calls : List (String × Member)) :
    (calls.foldl Package.record state).1.FilledBy (calls.foldl Package.record state).2 := by
  induction calls generalizing state with
  | nil => exact h
  | cons call rest ih => exact ih (h.record call)

theorem FilledBy.module?_eq_some_iff (h : p.FilledBy taken) {m : Module} :
    p.module? module = some m ↔ m = ⟨module, membersAt module taken⟩ ∧ membersAt module taken ≠ [] := by
  rw [Package.module?_eq_some_iff h.ascend]
  constructor
  · rintro ⟨hm, rfl⟩
    rw [← h.members, membersIn_eq h.ascend hm]
    exact ⟨rfl, h.filled m hm⟩
  · rintro ⟨rfl, hne⟩
    refine ⟨?_, rfl⟩
    rw [← h.members] at hne ⊢
    obtain ⟨member, hmember⟩ := List.exists_mem_of_ne_nil _ hne
    obtain ⟨m, hm, rfl, -⟩ := (mem_membersIn_iff h.ascend).mp hmember
    rwa [membersIn_eq h.ascend hm]

/-- One more call is taken unless it is refused. -/
theorem attempts_concat (p : Package) (calls : List (String × Member)) (module : String) (member : Member) :
    p.attempts (calls ++ [(module, member)]) =
      (((p.attempts calls).1.attempt module member).1, (p.attempts calls).2 ++
        if ((p.attempts calls).1.attempt module member).2.isSome then [] else [(module, member)]) := by
  have hlast : p.attempts (calls ++ [(module, member)]) = record (p.attempts calls) (module, member) :=
    List.foldl_concat ..
  rw [hlast, record]
  obtain ⟨p', -, hattempt⟩ | ⟨e, -, hattempt⟩ := (p.attempts calls).1.attempt_cases module member
  · simp [hattempt]
  · simp [hattempt]

/-- After any calls on a package without modules, refused calls among them: a further call is
refused if and only if a call that was taken gave a member of its name to its module; a refusal
names the module and the member and leaves the package as it was, and a call that is not refused is
taken; every module stands under its own name; the module of a name is there if and only if calls
for it were taken, and holds their members in the order of the calls; and no two members of a module
have one name. -/
theorem attempts_hold (empty : Package) (calls : List (String × Member)) :
    let start : Package := { empty with modules := [] }
    let p := (start.attempts calls).1
    let taken := (start.attempts calls).2
    (∀ module member,
      ((p.attempt module member).2.isSome ↔
        ∃ earlier ∈ taken, earlier.1 = module ∧ earlier.2.name = member.name) ∧
      (∀ e, (p.attempt module member).2 = some e →
        e = .duplicate module member.name ∧ (p.attempt module member).1 = p) ∧
      start.attempts (calls ++ [(module, member)]) = ((p.attempt module member).1,
        taken ++ if (p.attempt module member).2.isSome then [] else [(module, member)])) ∧
    (∀ m ∈ p.modules, p.module? m.name = some m) ∧
    (∀ module m, p.module? module = some m ↔
      m = ⟨module, membersAt module taken⟩ ∧ membersAt module taken ≠ []) ∧
    ∀ m ∈ p.modules, (m.members.map Member.name).Nodup := by
  intro start p taken
  have h : p.FilledBy taken := (filledBy_of_modules_eq_nil rfl).foldl_record calls
  refine ⟨fun module member => ⟨h.isSome_attempt_iff, fun e => attempt_error, ?_⟩, fun m hm => ?_,
    fun module m => ?_, h.distinct⟩
  · exact start.attempts_concat calls module member
  · exact (module?_eq_some_iff h.ascend).mpr ⟨hm, rfl⟩
  · exact h.module?_eq_some_iff

/-- Two files for a module, the first of them twice, and a file of the same name for another module. -/
def fileCalls : List (String × Member) :=
  [("net", .overlay ⟨"b.ts", ⟨"b.ts"⟩⟩), ("net", .overlay ⟨"b.ts", ⟨"c.ts"⟩⟩),
    ("net", .overlay ⟨"a.ts", ⟨"a.ts"⟩⟩), ("index", .overlay ⟨"b.ts", ⟨"b.ts"⟩⟩)]

def fileVariable : Member := .variable { (default : Property) with name := "a.ts" }

/-- The module has its two files in the order of the calls, and refuses the variable. -/
theorem fileCalls_hold :
    let p := (attempts { name := "acme", version := "1.0.0", modules := [] } fileCalls).1
    (p.module? "net").map Module.members = some [.overlay ⟨"b.ts", ⟨"b.ts"⟩⟩, .overlay ⟨"a.ts", ⟨"a.ts"⟩⟩] ∧
      (p.attempt "net" fileVariable).2 = some (.duplicate "net" "a.ts") ∧
        (p.attempt "net" fileVariable).1 = p := by
  obtain ⟨hcalls, -, hmodules, -⟩ :=
    attempts_hold { name := "acme", version := "1.0.0", modules := [] } fileCalls
  obtain ⟨hrefused, herror, -⟩ := hcalls "net" fileVariable
  have htaken : membersAt "net" (attempts { name := "acme", version := "1.0.0", modules := [] } fileCalls).2 =
      [.overlay ⟨"b.ts", ⟨"b.ts"⟩⟩, .overlay ⟨"a.ts", ⟨"a.ts"⟩⟩] := rfl
  obtain ⟨e, he⟩ := Option.isSome_iff_exists.mp (hrefused.mpr (by decide +kernel))
  obtain ⟨rfl, hsame⟩ := herror e he
  refine ⟨?_, he, hsame⟩
  rw [(hmodules "net" _).mpr ⟨rfl, by simp [htaken]⟩, htaken]
  rfl

end Package

end ProviderSdk
