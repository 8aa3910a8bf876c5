import ProviderSdk.Library.Target
import ProviderSdk.Proofs.Plan.Additions

/-!
# Copies in libraries

The copies in a plan are the hand-written files of its package, module after module and in their
order, each with its source, in the directory that the target has for the module. Nothing else is
copied, and no copy is left out.
-/

namespace ProviderSdk

def PlanEntry.copy? : PlanEntry → Option PlannedCopy
  | .file _ => none
  | .overlay o => some o

def copiesIn (entries : List PlanEntry) : List PlannedCopy := entries.filterMap PlanEntry.copy?

@[simp] theorem copiesIn_nil : copiesIn [] = [] := rfl

@[simp] theorem copiesIn_append (entries others : List PlanEntry) :
    copiesIn (entries ++ others) = copiesIn entries ++ copiesIn others := List.filterMap_append

@[simp] theorem copiesIn_file (f : PlannedFile) (entries : List PlanEntry) :
    copiesIn (.file f :: entries) = copiesIn entries := rfl

@[simp] theorem copiesIn_fileIn (directory : Path) (name content : String) (entries : List PlanEntry) :
    copiesIn (.fileIn directory name content :: entries) = copiesIn entries := rfl

@[simp] theorem copiesIn_fileAt (name content : String) (entries : List PlanEntry) :
    copiesIn (.fileAt name content :: entries) = copiesIn entries := rfl

@[simp] theorem copiesIn_overlayIn (directory : Path) (o : OverlayFile) (entries : List PlanEntry) :
    copiesIn (.overlayIn directory o :: entries) = ⟨directory.join ⟨o.name⟩, o.source⟩ :: copiesIn entries :=
      rfl

def Module.copiesTo (m : Module) (directory : Path) : List PlannedCopy :=
  m.overlays.map (fun o => ⟨directory.join ⟨o.name⟩, o.source⟩)

def Language.moduleDirectory (package module : String) : Language → Path
  | .nodejs => TypeScriptLibrary.moduleDirectory module
  | .python => PythonLibrary.moduleDirectory package module
  | .dotnet => CSharpLibrary.moduleDirectory module
  | .go => GoLibrary.moduleDirectory module
  | .schema => ⟨""⟩

def Package.copies (p : Package) (l : Language) : List PlannedCopy :=
  if l = .schema then [] else p.modules.flatMap (fun m => m.copiesTo (l.moduleDirectory p.name m.name))

namespace Plan

variable {p q : Plan} {copies more : List PlannedCopy}

/-- A plan has come from another with copies more; paths that were distinct still are. -/
structure Gains (p : Plan) (copies : List PlannedCopy) (q : Plan) : Prop where
  overlays : q.overlays = p.overlays ++ copies
  distinct : p.Distinct → q.Distinct

theorem Gains.trans {r : Plan} (h : p.Gains copies q) (h' : q.Gains more r) : p.Gains (copies ++ more) r where
  overlays := by rw [h'.overlays, h.overlays, List.append_assoc]
  distinct := fun hp => h'.distinct (h.distinct hp)

theorem Gains.refl (p : Plan) : p.Gains [] p := ⟨(List.append_nil _).symm, id⟩

theorem gains_add {e : PlanEntry} (h : p.add e = .ok q) : p.Gains (copiesIn [e]) q := by
  obtain ⟨hnot, rfl⟩ := add_eq_ok_iff.mp h
  refine ⟨?_, fun hp => hp.append hnot⟩
  cases e with
  | file f => exact (List.append_nil _).symm
  | overlay o => rfl

theorem gains_foldlM_add {entries : List PlanEntry} (h : entries.foldlM add p = .ok q) :
    p.Gains (copiesIn entries) q := by
  induction entries generalizing p with
  | nil =>
    cases h
    exact .refl _
  | cons e rest ih =>
    rw [List.foldlM_cons] at h
    obtain ⟨between, hadd, hrest⟩ := bind_eq_ok.mp h
    rw [← List.singleton_append, copiesIn_append]
    exact (gains_add hadd).trans (ih hrest)

theorem gains_addOutside {entries : List PlanEntry} (h : p.addOutside entries = .ok q) :
    p.Gains (copiesIn entries) q :=
  gains_foldlM_add (addOutside_eq_ok.mp h)

theorem gains_addModules {contents : Module → Except EmitCause (List PlanEntry)}
    {of : Module → List PlannedCopy} {ms : List Module}
    (hcontents : ∀ m entries, contents m = .ok entries → copiesIn entries = of m)
    (h : p.addModules contents ms = .ok q) : p.Gains (ms.flatMap of) q := by
  induction ms generalizing p with
  | nil =>
    cases h
    exact .refl _
  | cons m rest ih =>
    rw [addModules, List.foldlM_cons] at h
    obtain ⟨between, hfirst, hrest⟩ := bind_eq_ok.mp h
    obtain ⟨entries, hentries, hadded⟩ := addModule_eq_ok.mp hfirst
    rw [List.flatMap_cons, ← hcontents m entries hentries]
    exact (gains_foldlM_add hadded).trans (ih hrest)

end Plan

variable {p : Package} {plan : Plan}

/-- Members that contribute a copy exactly if they are hand-written files contribute those of their module. -/
theorem copiesIn_flatMap {entriesOf : Member → List PlanEntry} (directory : Path) (m : Module)
    (h : ∀ member, copiesIn (entriesOf member) = match member with
      | .overlay o => [⟨directory.join ⟨o.name⟩, o.source⟩]
      | _ => []) :
    copiesIn (m.members.flatMap entriesOf) = m.copiesTo directory := by
  rw [Module.copiesTo, Module.overlays]
  induction m.members with
  | nil => rfl
  | cons member rest ih =>
    rw [List.flatMap_cons, copiesIn_append, ih, h]
    cases member <;> rfl

theorem TypeScriptLibrary.copiesIn_moduleEntries (p : Package) (m : Module) :
    copiesIn (moduleEntries p m) = m.copiesTo (moduleDirectory m.name) := by
  rw [moduleEntries, copiesIn_append, copiesIn_append,
    copiesIn_flatMap (moduleDirectory m.name) m (fun member => by cases member <;> rfl)]
  split <;> simp [indexEntry]

theorem TypeScriptLibrary.gains_plan (h : TypeScriptLibrary.plan p = .ok plan) :
    Plan.Gains {} (p.copies .nodejs) plan := by
  obtain ⟨start, hstart, h⟩ := bind_eq_ok.mp h
  obtain ⟨modules, hmodules, h⟩ := bind_eq_ok.mp h
  have hmodules : Plan.Gains {} (p.copies .nodejs) modules := (Plan.gains_addOutside hstart).trans
    (Plan.gains_addModules (fun m _ hentries => Except.ok.inj hentries ▸ copiesIn_moduleEntries p m) hmodules)
  have hlast {indexed : Plan} (hindexed : Plan.Gains {} (p.copies .nodejs) indexed)
      (h : (do
        let listed ← indexed.addOutside [.fileAt "package.json" (manifest p)]
        listed.addOutside [.fileAt "tsconfig.json" (sourceList (sources listed))]) = .ok plan) :
      Plan.Gains {} (p.copies .nodejs) plan := by
    obtain ⟨listed, hlisted, h⟩ := bind_eq_ok.mp h
    simpa using (hindexed.trans (Plan.gains_addOutside hlisted)).trans (Plan.gains_addOutside h)
  dsimp only at h
  split at h
  · exact hlast hmodules h
  · obtain ⟨indexed, hindexed, h⟩ := bind_eq_ok.mp h
    refine hlast ?_ h
    simpa [indexEntry] using hmodules.trans (Plan.gains_addOutside hindexed)

theorem PythonLibrary.copiesIn_moduleEntries (p : Package) (m : Module) :
    copiesIn (moduleEntries p m) = m.copiesTo (moduleDirectory p.name m.name) := by
  rw [moduleEntries, copiesIn_append, copiesIn_append,
    copiesIn_flatMap (moduleDirectory p.name m.name) m (fun member => by cases member <;> rfl)]
  split <;> simp [indexEntry]

theorem PythonLibrary.gains_plan (h : PythonLibrary.plan p = .ok plan) :
    Plan.Gains {} (p.copies .python) plan := by
  obtain ⟨start, hstart, h⟩ := bind_eq_ok.mp h
  obtain ⟨modules, hmodules, h⟩ := bind_eq_ok.mp h
  have hmodules : Plan.Gains {} (p.copies .python) modules := (Plan.gains_addOutside hstart).trans
    (Plan.gains_addModules (fun m _ hentries => Except.ok.inj hentries ▸ copiesIn_moduleEntries p m) hmodules)
  split at h
  · cases h
    exact hmodules
  · simpa [indexEntry] using hmodules.trans (Plan.gains_addOutside h)

theorem CSharpLibrary.copiesIn_moduleEntries (p : Package) (m : Module) :
    copiesIn (moduleEntries p m) = m.copiesTo (moduleDirectory m.name) := by
  rw [moduleEntries, copiesIn_append,
    copiesIn_flatMap (moduleDirectory m.name) m (fun member => by cases member <;> rfl)]
  split <;> simp

theorem CSharpLibrary.gains_plan (h : CSharpLibrary.plan p = .ok plan) :
    Plan.Gains {} (p.copies .dotnet) plan := by
  obtain ⟨start, hstart, h⟩ := bind_eq_ok.mp h
  exact (Plan.gains_addOutside hstart).trans
    (Plan.gains_addModules (fun m _ hentries => Except.ok.inj hentries ▸ copiesIn_moduleEntries p m) h)

theorem GoLibrary.copiesIn_moduleEntries {m : Module} {entries : List PlanEntry}
    (h : moduleEntries p m = .ok entries) : copiesIn entries = m.copiesTo (moduleDirectory m.name) := by
  obtain ⟨names, -, h⟩ := bind_eq_ok.mp h
  cases h
  rw [copiesIn_append, copiesIn_append,
    copiesIn_flatMap (moduleDirectory m.name) m (fun member => by cases member <;> rfl)]
  split <;> split <;> simp

theorem GoLibrary.gains_plan (h : GoLibrary.plan p = .ok plan) : Plan.Gains {} (p.copies .go) plan := by
  obtain ⟨start, hstart, h⟩ := bind_eq_ok.mp h
  exact (Plan.gains_addOutside hstart).trans (Plan.gains_addModules (fun _ _ => copiesIn_moduleEntries) h)

namespace Package

theorem gains_planFor {l : Language} (h : p.planFor l = .ok plan) : Plan.Gains {} (p.copies l) plan := by
  cases l with
  | nodejs => exact TypeScriptLibrary.gains_plan h
  | python => exact PythonLibrary.gains_plan h
  | dotnet => exact CSharpLibrary.gains_plan h
  | go => exact GoLibrary.gains_plan h
  | schema => exact Plan.gains_addOutside h

/-- A planned library copies the hand-written files of its package, and has no path twice. -/
theorem overlays_planFor {l : Language} (h : p.planFor l = .ok plan) :
    plan.overlays = p.copies l ∧ plan.Distinct := by
  obtain ⟨hoverlays, hdistinct⟩ := gains_planFor h
  exact ⟨hoverlays.trans (List.nil_append _), hdistinct .nil⟩

/-- Nothing is copied for the schema, nor for a package without hand-written files. -/
theorem copies_eq_nil_iff {l : Language} :
    p.copies l = [] ↔ l = .schema ∨ ∀ m ∈ p.modules, m.overlays = [] := by
  rw [copies]
  split
  · next hschema => simp [hschema]
  · next hschema => simp [hschema, List.flatMap_eq_nil_iff, Module.copiesTo]

end Package

end ProviderSdk
