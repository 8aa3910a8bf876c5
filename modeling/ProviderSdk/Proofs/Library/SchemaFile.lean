import ProviderSdk.Library.SchemaFile
import ProviderSdk.Proofs.Package.Contents
import ProviderSdk.Proofs.Package.Serialized

/-!
# What the schema file tells

The schema file of a package tells its name, its version, what is said about it and what is
generated from it, module by module, but for the descriptions and positions of properties. Packages
that differ in anything else have different files; modules without generated members, hand-written
files and where the schema came from do not show.
-/

namespace ProviderSdk

/-- A package to which nothing but members has been added. -/
inductive Package.Built : Package → Prop where
  | start {p} (empty : p.modules = []) : Built p
  | add {p p' module member} (built : Built p) (added : p.addMember module member = .ok p') : Built p'

theorem Package.Built.modulesAscend {p : Package} (h : p.Built) : p.ModulesAscend := by
  induction h with
  | start hempty =>
    rw [ModulesAscend, hempty]
    exact .nil
  | add _ hadded ih => exact ih.addMember hadded

/-- The tokens in the members of a package are separated and the numbers finite. -/
def Package.Printable (p : Package) : Prop := ∀ m ∈ p.modules, ∀ member ∈ m.members, member.Printable

def Package.moduleNamed (p : Package) (name : String) : Module := ⟨name, p.membersIn name⟩

theorem Package.Printable.moduleNamed {p : Package} (h : p.Printable) (name : String) :
    ∀ member ∈ (p.moduleNamed name).members, member.Printable := by
  intro member hmember
  change member ∈ membersOf p.modules name at hmember
  unfold membersOf at hmember
  cases hfind : p.modules.find? (fun m => m.name == name) with
  | none =>
    rw [hfind] at hmember
    cases hmember
  | some m =>
    rw [hfind] at hmember
    exact h m (List.mem_of_find?_eq_some hfind) member hmember

/-- Modules have the same generated members, in the same order, but for the descriptions and
positions of properties. -/
structure Module.SameGenerated (m m' : Module) : Prop where
  resources : m.resources.map Resource.bare = m'.resources.map Resource.bare
  dataSources : m.dataSources.map DataSource.bare = m'.dataSources.map DataSource.bare
  configVariables : m.configVariables.map Property.bare = m'.configVariables.map Property.bare

/-- Packages differ in descriptions and positions of properties, in modules without generated
members, in hand-written files and in where the schema came from at most. -/
structure Package.SameSchema (p q : Package) : Prop where
  name : p.name = q.name
  version : p.version = q.version
  metadata : p.metadata = q.metadata
  packaging : p.packaging = q.packaging
  modules : ∀ name, (p.moduleNamed name).SameGenerated (q.moduleNamed name)

namespace Library

variable {p q : Package} {m m' : Module} {modules : List Module}

theorem lookup_unlessEmpty (key k : String) (items : List Json) :
    (unlessEmpty key items).lookup k = if k =
      key then (if items.isEmpty then none else some (.arr items)) else none :=
  Serialized.lookup_unless key k _ _

theorem unlessEmpty_inj {items items' : List Json}
    (h : (if items.isEmpty then none else some (Json.arr items)) =
      if items'.isEmpty then none else some (.arr items')) :
    items = items' :=
  Serialized.unless_inj (fun _ _ => Json.arr.inj) [] List.isEmpty_iff.mp List.isEmpty_iff.mp h

/-- Generated members are the same but for what is not written exactly if the schema says the same
of both modules. -/
theorem sameGenerated_iff (hm : ∀ member ∈ m.members, member.Printable)
    (hm' : ∀ member ∈ m'.members, member.Printable) :
    m.SameGenerated m' ↔ moduleMembers m = moduleMembers m' := by
  constructor
  · rintro ⟨hresources, hdataSources, hvariables⟩
    have hbare {α : Type} {form : α → Json} {bare : α → α}
        (hform : ∀ a, form (bare a) = form a) {as bs : List α}
        (h : as.map bare = bs.map bare) : as.map form = bs.map form := by
      have heq := congrArg (List.map form) h
      rwa [List.map_map, List.map_map, show form ∘ bare = form from funext hform] at heq
    rw [moduleMembers, moduleMembers, hbare Serialized.resource_bare hresources,
      hbare Serialized.dataSource_bare hdataSources, hbare Serialized.property_bare hvariables]
  · intro h
    have hfield (key : String) := congrArg (List.lookup key) h
    simp only [moduleMembers, List.lookup_append, lookup_unlessEmpty] at hfield
    have hresources : m.resources.map Serialized.resource = m'.resources.map Serialized.resource :=
      unlessEmpty_inj (by simpa using hfield "resources")
    have hdataSources : m.dataSources.map Serialized.dataSource = m'.dataSources.map Serialized.dataSource :=
      unlessEmpty_inj (by simpa using hfield "functions")
    have hvariables : m.configVariables.map Serialized.property =
        m'.configVariables.map Serialized.property :=
      unlessEmpty_inj (by simpa using hfield "variables")
    refine ⟨Serialized.map_eq_of_map_eq Resource.bare (fun r hr r' hr' => ?_) hresources,
      Serialized.map_eq_of_map_eq DataSource.bare (fun f hf f' hf' => ?_) hdataSources,
      Serialized.map_eq_of_map_eq Property.bare (fun v hv v' hv' => ?_) hvariables⟩
    · exact Serialized.resource_inj (hm _ (Module.mem_members_of_mem_resources hr))
        (hm' _ (Module.mem_members_of_mem_resources hr'))
    · exact Serialized.dataSource_inj (hm _ (Module.mem_members_of_mem_dataSources hf))
        (hm' _ (Module.mem_members_of_mem_dataSources hf'))
    · exact Serialized.property_inj_of_printable (hm _ (Module.mem_members_of_mem_configVariables hv))
        (hm' _ (Module.mem_members_of_mem_configVariables hv'))

def moduleJson? (m : Module) : Option Json :=
  if (moduleMembers m).isEmpty then none else some (.obj (moduleMembers m))

theorem schemaModules_cons (m : Module) (rest : List Module) :
    schemaModules (m :: rest) = ((moduleJson? m).map (fun json => (m.name, json))).toList ++
      schemaModules rest := by
  rw [schemaModules, List.filterMap_cons, moduleJson?]
  dsimp only
  cases (moduleMembers m).isEmpty <;> rfl

/-- In the schema each module with generated members stands under its name. -/
theorem lookup_schemaModules (hmodules : modules.Pairwise (fun m m' => m.name < m'.name)) (name : String) :
    (schemaModules modules).lookup name = moduleJson? ⟨name, membersOf modules name⟩ := by
  induction modules with
  | nil => rfl
  | cons m rest ih =>
    obtain ⟨hfirst, hrest⟩ := List.pairwise_cons.mp hmodules
    rw [schemaModules_cons, List.lookup_append, ih hrest, membersOf_cons]
    by_cases hname : m.name = name
    · subst hname
      have hlater : membersOf rest m.name = [] := membersOf_eq_nil (fun m' hm' => (hfirst m' hm').ne')
      rw [if_pos rfl, hlater]
      cases moduleJson? m with
      | none => rfl
      | some json => simp
    · rw [if_neg hname]
      cases moduleJson? m with
      | none => rfl
      | some json => simp [Json.lookup_cons_ite, Ne.symm hname]

theorem ascending_schemaModules (hmodules : modules.Pairwise (fun m m' => m.name < m'.name)) :
    Json.Ascending (schemaModules modules) := by
  have hname {m : Module} {entry : String × Json} (h : (let members := moduleMembers m
      if members.isEmpty then none else some (m.name, Json.obj members)) = some entry) :
        entry.1 = m.name := by
    dsimp only at h
    split at h
    · cases h
    · exact (congrArg Prod.fst (Option.some.inj h)).symm
  rw [Json.Ascending, List.pairwise_map, schemaModules, List.pairwise_filterMap]
  refine hmodules.imp (fun hlt entry hentry entry' hentry' => ?_)
  rw [hname hentry, hname hentry']
  exact hlt

/-- The schema says the same of the modules of two packages exactly if it does so of each. -/
theorem schemaModules_eq_iff (hp : p.ModulesAscend) (hq : q.ModulesAscend) :
    schemaModules p.modules = schemaModules q.modules ↔
      ∀ name, moduleMembers (p.moduleNamed name) = moduleMembers (q.moduleNamed name) := by
  constructor
  · intro h name
    have hlookup := congrArg (List.lookup name) h
    rw [lookup_schemaModules hp, lookup_schemaModules hq] at hlookup
    exact Serialized.unless_inj (fun _ _ => Json.obj.inj) [] List.isEmpty_iff.mp List.isEmpty_iff.mp hlookup
  · intro h
    refine (ascending_schemaModules hp).ext (ascending_schemaModules hq) (fun name => ?_)
    have hname := h name
    unfold Package.moduleNamed Package.membersIn at hname
    rw [lookup_schemaModules hp, lookup_schemaModules hq, moduleJson?, moduleJson?, hname]

theorem schemaJson_eq_iff : schemaJson p = schemaJson q ↔ p.name = q.name ∧ p.version = q.version ∧
    p.metadata = q.metadata ∧ p.packaging = q.packaging ∧
      schemaModules p.modules = schemaModules q.modules := by
  constructor
  · intro h
    obtain ⟨hfront, hback⟩ := List.append_inj' (Json.obj.inj h) rfl
    obtain ⟨hfirst, hmetadata⟩ := List.append_inj' hfront rfl
    simp only [List.cons.injEq, Prod.mk.injEq, Json.str.injEq, Json.obj.injEq, true_and, and_true]
      at hfirst hback
    exact ⟨hfirst.1, hfirst.2, Serialized.metadataMembers_injective hmetadata,
      Serialized.packaging_injective hback.1, hback.2⟩
  · rintro ⟨hname, hversion, hmetadata, hpackaging, hmodules⟩
    rw [schemaJson, schemaJson, hname, hversion, hmetadata, hpackaging, hmodules]

theorem finite_moduleMembers (hm : ∀ member ∈ m.members, member.Printable) :
    Serialized.FiniteMembers (moduleMembers m) := by
  have hlist {key : String} {items : List Json} (h : (Json.arr items).Finite) :
      Serialized.FiniteMembers (unlessEmpty key items) := by
    unfold unlessEmpty
    split
    · exact Serialized.finite_nil
    · exact Serialized.finite_cons h Serialized.finite_nil
  refine ((hlist (Serialized.finite_map (fun r hr => ?_))).append
    (hlist (Serialized.finite_map (fun f hf => ?_)))).append
    (hlist (Serialized.finite_map (fun v hv => ?_)))
  · exact Serialized.finite_resource (hm _ (Module.mem_members_of_mem_resources hr))
  · exact Serialized.finite_dataSource (hm _ (Module.mem_members_of_mem_dataSources hf))
  · exact Serialized.finite_property (hm _ (Module.mem_members_of_mem_configVariables hv))

theorem finite_schemaJson (hp : p.Printable) : (schemaJson p).Finite := by
  have hmodules : Serialized.FiniteMembers (schemaModules p.modules) := by
    intro entry hentry
    obtain ⟨m, hm, h⟩ := List.mem_filterMap.mp hentry
    dsimp only at h
    split at h
    · cases h
    · cases h
      exact .obj (finite_moduleMembers (hp m hm))
  refine .obj (((Serialized.finite_cons (.str _) (Serialized.finite_cons (.str _)
    Serialized.finite_nil)).append
    (Serialized.finite_metadataMembers _)).append ?_)
  exact Serialized.finite_cons (Serialized.finite_packaging _)
    (Serialized.finite_cons (.obj hmodules) Serialized.finite_nil)

/-- The schema file tells everything about a package but what is left out on purpose. -/
theorem schemaText_eq_iff (hp : p.Built) (hq : q.Built) (hpPrintable : p.Printable)
    (hqPrintable : q.Printable) :
    schemaText p = schemaText q ↔ p.SameSchema q := by
  have htext : schemaText p = schemaText q ↔ schemaJson p = schemaJson q := by
    constructor
    · intro h
      exact Json.pretty_inj (finite_schemaJson hpPrintable) (finite_schemaJson hqPrintable)
        ((String.append_left_inj _).mp h)
    · intro h
      rw [schemaText, schemaText, h]
  have hmodules : (∀ name, (p.moduleNamed name).SameGenerated (q.moduleNamed name)) ↔
      schemaModules p.modules = schemaModules q.modules := by
    rw [schemaModules_eq_iff hp.modulesAscend hq.modulesAscend]
    exact forall_congr' (fun name => sameGenerated_iff (hpPrintable.moduleNamed name)
      (hqPrintable.moduleNamed name))
  rw [htext, schemaJson_eq_iff, ← hmodules]
  constructor
  · rintro ⟨hname, hversion, hmetadata, hpackaging, hmodules⟩
    exact ⟨hname, hversion, hmetadata, hpackaging, hmodules⟩
  · rintro ⟨hname, hversion, hmetadata, hpackaging, hmodules⟩
    exact ⟨hname, hversion, hmetadata, hpackaging, hmodules⟩

/-- A variable of an object type whose property has a type given by a token and a default; both have
a description and a position. -/
def endpointVariable (name description : String) (position : Position) : Property where
  rawName := "endpoint"
  name := name
  type := .object ⟨"Endpoint", [{
    rawName := "timeout"
    name := "timeout"
    type := .custom ⟨.of "acme" "index" "Seconds", []⟩
    optional := true
    doc := ""
    description := description
    default := some { literal := some (.float ⟨0x4008000000000000⟩) }
    deprecation := none
    secret := false
    position := position }]⟩
  optional := false
  doc := ""
  description := description
  default := none
  deprecation := none
  secret := false
  position := position

def variablePackage (v : Property) : Package where
  name := "acme"
  version := "1.0.0"
  modules := [⟨configModule, [.variable v]⟩]

def connectFile : OverlayFile := ⟨"connect.ts", ⟨"overlays/connect.ts"⟩⟩

/-- The package with a hand-written file in the root module, and with a provenance. -/
def variablePackageWithFile (v : Property) : Package where
  name := "acme"
  version := "1.0.0"
  modules := [⟨configModule, [.variable v]⟩, ⟨rootModule, [.overlay connectFile]⟩]
  provenance := some { repository := "acme/schema" }

theorem built_variablePackage (v : Property) : (variablePackage v).Built := by
  have hadd : ({ variablePackage v with modules := [] } : Package).addMember configModule (.variable v) =
      .ok (variablePackage v) := rfl
  exact .add (.start rfl) hadd

theorem built_variablePackageWithFile (v : Property) : (variablePackageWithFile v).Built := by
  have hvariable : ({ variablePackageWithFile v with modules := [] } : Package).addMember
      configModule (.variable v) =
      .ok { variablePackageWithFile v with modules := (variablePackage v).modules } := rfl
  have hmodules : Package.addToModules rootModule (.overlay connectFile) (variablePackage v).modules =
      .ok (variablePackageWithFile v).modules := by
    rw [variablePackage, Package.addToModules, if_neg (show ¬rootModule = configModule by decide),
      if_neg (show ¬rootModule < configModule by decide)]
    rfl
  have hfile : ({ variablePackageWithFile v with modules := (variablePackage v).modules } :
      Package).addMember rootModule (.overlay connectFile) = .ok (variablePackageWithFile v) := by
    rw [Package.addMember, hmodules]
    rfl
  exact .add (.add (.start rfl) hvariable) hfile

theorem printable_endpointVariable (name description : String) (position : Position) :
    (endpointVariable name description position).Printable := by
  have htoken : (Token.of "acme" "index" "Seconds").Separated := by
    refine ⟨by decide, by decide, fun file h => ?_, by decide⟩
    cases h
  have hdefault : ({ literal := some (.float ⟨0x4008000000000000⟩) } : DefaultValue).Finite := by
    rintro l ⟨⟩
    exact rfl
  refine Property.printable_iff.mpr ⟨⟨Property.printable_iff.mpr ⟨⟨htoken, ?_⟩, ?_⟩, trivial⟩, ?_⟩
  · intro t ht
    cases ht
  · rintro d ⟨⟩
    exact hdefault
  · rintro d ⟨⟩

/-- Descriptions, positions, hand-written files and where the schema came from do not show; the name
of a variable does. -/
theorem schemaText_variablePackage :
    schemaText (variablePackage (endpointVariable "endpoint" "" .input)) =
        schemaText (variablePackageWithFile (endpointVariable "endpoint" "Where to connect." .output)) ∧
      schemaText (variablePackage (endpointVariable "endpoint" "" .input)) ≠
        schemaText (variablePackage (endpointVariable "address" "" .input)) := by
  have hprintable (name description : String) (position : Position) :
      (variablePackage (endpointVariable name description position)).Printable := by
    simp [Package.Printable, variablePackage, Member.Printable, printable_endpointVariable]
  have hprintableWithFile (name description : String) (position : Position) :
      (variablePackageWithFile (endpointVariable name description position)).Printable := by
    simp [Package.Printable, variablePackageWithFile, Member.Printable, printable_endpointVariable]
  constructor
  · refine (schemaText_eq_iff (built_variablePackage _) (built_variablePackageWithFile _) (hprintable _ _ _)
      (hprintableWithFile _ _ _)).mpr ⟨rfl, rfl, rfl, rfl, fun name => ?_⟩
    by_cases hconfig : configModule = name
    · subst hconfig
      exact ⟨rfl, rfl, rfl⟩
    · have hnone : (variablePackage (endpointVariable "endpoint" "" .input)).membersIn name = [] := by
        simp [Package.membersIn, variablePackage, hconfig, membersOf]
      by_cases hroot : rootModule = name
      · subst hroot
        exact ⟨rfl, rfl, rfl⟩
      · have hnone' : (variablePackageWithFile (endpointVariable "endpoint" "Where to connect."
            .output)).membersIn name =
            [] := by
          simp [Package.membersIn, variablePackageWithFile, hconfig, hroot, membersOf]
        rw [Package.moduleNamed, Package.moduleNamed, hnone, hnone']
        exact ⟨rfl, rfl, rfl⟩
  · intro h
    have hsame := (schemaText_eq_iff (built_variablePackage _) (built_variablePackage _) (hprintable _ _ _)
      (hprintable _ _ _)).mp h
    have hvariables := (hsame.modules configModule).configVariables
    have hname : "endpoint" = "address" := congrArg (fun ps => (ps.map Property.name).headD "") hvariables
    exact absurd hname (by decide)

end Library

end ProviderSdk
