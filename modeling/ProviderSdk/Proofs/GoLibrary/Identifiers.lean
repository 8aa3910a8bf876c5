import ProviderSdk.GoLibrary.MemberFiles
import ProviderSdk.Proofs.Json.Members
import ProviderSdk.Proofs.Package.Members
import ProviderSdk.Proofs.Results

/-!
# Identifiers of a Go package

If the members of a module can be named, no two of the identifiers that they declare are equal:
neither those that are recorded while names are given, nor those that stand in the files of the
members.
-/

namespace ProviderSdk.GoLibrary

def identifiers (declared : List Declared) : List String := declared.map Declared.identifier

variable {owner : String} {declared declared' : List Declared}

theorem declare_eq_ok {identifier : String} (h : declare owner declared identifier = .ok declared') :
    identifiers declared' = identifiers declared ++ [identifier] ∧ identifier ∉ identifiers declared := by
  rw [declare, owner?] at h
  cases hfind : declared.find? (fun d => d.identifier == identifier) with
  | some d => simp [hfind] at h
  | none =>
    rw [hfind] at h
    cases h
    refine ⟨by simp [identifiers], fun hmem => ?_⟩
    obtain ⟨d, hd, hidentifier⟩ := List.mem_map.mp hmem
    have hne := List.find?_eq_none.mp hfind d hd
    simp [hidentifier] at hne

/-- Identifiers that can be declared one after the other come behind those that there were, and none
is there twice. -/
theorem declareAll_eq_ok {names : List String} (h : declareAll owner declared names = .ok declared') :
    identifiers declared' = identifiers declared ++ names ∧
      ((identifiers declared).Nodup → (identifiers declared').Nodup) := by
  rw [declareAll] at h
  induction names generalizing declared with
  | nil =>
    cases h
    exact ⟨by simp, id⟩
  | cons name rest ih =>
    rw [List.foldlM_cons] at h
    obtain ⟨between, hfirst, hrest⟩ := bind_eq_ok.mp h
    obtain ⟨hbetween, hnew⟩ := declare_eq_ok hfirst
    obtain ⟨hdeclared, hnodup⟩ := ih hrest
    refine ⟨by rw [hdeclared, hbetween, List.append_assoc]; rfl, fun h => hnodup ?_⟩
    rw [hbetween, List.nodup_append]
    exact ⟨h, by simp, fun a ha b hb heq => hnew (List.mem_singleton.mp hb ▸ heq ▸ ha)⟩

theorem declareResources_eq_ok {rs : List Resource} (h : declareResources rs = .ok declared) :
    identifiers declared = rs.flatMap resourceIdentifiers ∧ (identifiers declared).Nodup := by
  have hfold (start : List Declared)
      (h : rs.foldlM (fun declared r => declareAll (resourceOwner r) declared (resourceIdentifiers r)) start =
        .ok declared) :
      identifiers declared = identifiers start ++ rs.flatMap resourceIdentifiers ∧
        ((identifiers start).Nodup → (identifiers declared).Nodup) := by
    clear * - h
    induction rs generalizing start with
    | nil =>
      cases h
      exact ⟨by simp, id⟩
    | cons r rest ih =>
      rw [List.foldlM_cons] at h
      obtain ⟨between, hfirst, hrest⟩ := bind_eq_ok.mp h
      obtain ⟨hbetween, hnodup⟩ := declareAll_eq_ok hfirst
      obtain ⟨hdeclared, hnodup'⟩ := ih between hrest
      exact ⟨by rw [hdeclared, hbetween, List.flatMap_cons, List.append_assoc], fun h => hnodup' (hnodup h)⟩
  obtain ⟨hdeclared, hnodup⟩ := hfold [] h
  exact ⟨hdeclared, hnodup List.nodup_nil⟩

theorem nameFunctions_eq_ok {fs : List DataSource} {names : FunctionNames}
    (h : nameFunctions declared fs = .ok names) :
    names.map Prod.fst = fs.map (·.name) ∧
      ((identifiers declared).Nodup →
        (identifiers declared ++ names.flatMap (fun e => functionIdentifiers e.2)).Nodup) := by
  induction fs generalizing declared names with
  | nil =>
    cases h
    exact ⟨rfl, by simp⟩
  | cons f rest ih =>
    obtain ⟨between, hfirst, h⟩ := bind_eq_ok.mp h
    obtain ⟨more, hrest, h⟩ := bind_eq_ok.mp h
    cases h
    obtain ⟨hbetween, hnodup⟩ := declareAll_eq_ok hfirst
    obtain ⟨hnames, hnodup'⟩ := ih hrest
    refine ⟨by simp [hnames], fun h => ?_⟩
    have hmore := hnodup' (hnodup h)
    rw [hbetween, List.append_assoc] at hmore
    rwa [List.flatMap_cons]

/-- If the data sources of a module can be named, what its members declare is distinct. -/
theorem functionNames_eq_ok {m : Module} {names : FunctionNames} (h : functionNames m = .ok names) :
    names.map Prod.fst = m.dataSources.map (·.name) ∧
      (m.resources.flatMap resourceIdentifiers ++
        names.flatMap (fun e => functionIdentifiers e.2)).Nodup := by
  obtain ⟨declared, hresources, h⟩ := bind_eq_ok.mp h
  obtain ⟨hdeclared, hnodup⟩ := declareResources_eq_ok hresources
  obtain ⟨hnames, hnodup'⟩ := nameFunctions_eq_ok h
  exact ⟨hnames, hdeclared ▸ hnodup' hnodup⟩

/-- If no two data sources have the same name, each finds the name that it was given. -/
theorem map_nameOf {names : FunctionNames} {fs : List DataSource}
    (hnames : names.map Prod.fst = fs.map (·.name)) (hnodup : (fs.map (·.name)).Nodup) :
    fs.map names.nameOf = names.map Prod.snd := by
  let named (name : String) : String := (names.lookup name).getD (Text.upperFirst name)
  calc fs.map names.nameOf = (fs.map (·.name)).map named := by rw [List.map_map]; rfl
    _ = (names.map Prod.fst).map named := by rw [hnames]
    _ = names.map Prod.snd := by
      rw [List.map_map]
      refine List.map_congr_left (fun e he => ?_)
      simp [named, Json.lookup_of_mem (hnames ▸ hnodup) he]

def SourceFile.declares (f : SourceFile) : List String := f.declarations.flatMap (·.names)

theorem declares_resourceFile (package module : String) (r : Resource) :
    (resourceFile package module r).declares.Perm (resourceIdentifiers r) := by
  have hdeclares : (resourceFile package module r).declares =
      [r.name, newName r] ++ ((if r.isProvider then [] else [getName r]) ++
        [plainArgsName r, r.argsTypeName]) := by
    cases h : r.isProvider <;>
      simp [SourceFile.declares, resourceFile, h, ResourceFile.resourceType, ResourceFile.creation,
        ResourceFile.lookUp, ResourceFile.plainArgs, ResourceFile.inputArgs, ResourceFile.elementType]
  rw [hdeclares, resourceIdentifiers]
  exact List.perm_append_comm.append_left [r.name, newName r]

theorem declares_dataSourceFile (package module name : String) (f : DataSource) :
    (dataSourceFile package module name f).declares = functionIdentifiers name := rfl

/-- The file of a resource or a data source, with the directory that it is put in and the name from
which it is named. -/
structure MemberFile where
  directory : Path
  stem : String
  source : SourceFile

namespace MemberFile

def declares (f : MemberFile) : List String := f.source.declares

def planned (f : MemberFile) : PlannedFile := ⟨f.directory.join ⟨fileName f.stem⟩, f.source.content⟩

end MemberFile

def memberFile? (package module : String) (names : FunctionNames) : Member → Option MemberFile
  | .resource r => some ⟨moduleDirectory module, r.fileStem, resourceFile package module r⟩
  | .dataSource f =>
    some ⟨moduleDirectory module, f.fileStem, dataSourceFile package module (names.nameOf f) f⟩
  | _ => none

def memberFiles (package : String) (m : Module) (names : FunctionNames) : List MemberFile :=
  m.members.filterMap (memberFile? package m.name names)

theorem perm_declares_memberFiles (package : String) (m : Module) (names : FunctionNames) :
    ((memberFiles package m names).flatMap MemberFile.declares).Perm
      (m.resources.flatMap resourceIdentifiers ++
        m.dataSources.flatMap (fun f => functionIdentifiers (names.nameOf f))) := by
  obtain ⟨module, members⟩ := m
  induction members with
  | nil => exact .refl _
  | cons member rest ih =>
    cases member with
    | resource r =>
      have h := (declares_resourceFile package module r).append ih
      rw [← List.append_assoc] at h
      exact h
    | dataSource f =>
      have h := (List.Perm.of_eq (declares_dataSourceFile package module (names.nameOf f) f)).append ih
      exact h.trans (List.perm_append_comm_assoc _ _ _)
    | _ => exact ih

/-- If the data sources of a module can be named and no two members have the same name, no
identifier is declared twice in the files of the members. -/
theorem nodup_declares_memberFiles (package : String) {m : Module} {names : FunctionNames}
    (hm : m.NamesDistinct) (hnames : functionNames m = .ok names) :
    ((memberFiles package m names).flatMap MemberFile.declares).Nodup := by
  obtain ⟨hnamed, hnodup⟩ := functionNames_eq_ok hnames
  have hgiven := map_nameOf hnamed hm.dataSources
  have hfunctions : m.dataSources.flatMap (fun f => functionIdentifiers (names.nameOf f)) =
      names.flatMap (fun e => functionIdentifiers e.2) := by
    rw [← List.flatMap_map names.nameOf, ← List.flatMap_map Prod.snd, hgiven]
  rw [(perm_declares_memberFiles package m names).nodup_iff, hfunctions]
  exact hnodup

end ProviderSdk.GoLibrary
