import Mathlib.Data.Set.Function
import ProviderSdk.Library.Target
import ProviderSdk.Proofs.Compile.PropertyNames
import ProviderSdk.Proofs.Compile.Targets
import ProviderSdk.Proofs.Library.Indexes
import ProviderSdk.Proofs.Text.WordKeys

/-!
# Identifiers of properties

Generated code declares identifiers for the properties of a type, such as that of the arguments of a
resource, and for the configuration variables. They are made from names that are not compared with
each other. So they are distinct if and only if a language spells the names of the fields of the
object apart. Keys in snake case are spelled apart, if no field is renamed; but in Python words of a
single letter may run together, and in C# a property that has the name of its class may get that of
another.
-/

namespace ProviderSdk

/-- Where identifiers of properties stand next to each other: in a type, or with all configuration
variables. -/
inductive Scope where
  | type (name : String)
  | config

def Scope.className : Scope → String
  | .type name => name
  | .config => CSharpLibrary.ConfigFile.className

def Language.identifierOf : Language → Scope → Property → String
  | .nodejs, .type _, p => p.name
  | .nodejs, .config, p => TypeScriptLibrary.ConfigFile.constantName p
  | .python, _, p => PythonLibrary.fieldName p
  | .dotnet, scope, p => CSharpLibrary.propertyName p.name scope.className
  | .go, .type _, p => GoLibrary.fieldName p
  | .go, .config, p => GoLibrary.ConfigFile.accessorName p
  | .schema, _, p => p.name

def Language.spelling : Language → Scope → String → String
  | .nodejs, .type _, name => name
  | .nodejs, .config, name => Convention.typeScript.safe (Text.camelCase name)
  | .python, _, name => Convention.python.safe (Text.snakeWords name)
  | .dotnet, scope, name => CSharpLibrary.propertyName name scope.className
  | .go, .type _, name => Convention.go.safe (Text.upperFirst name)
  | .go, .config, name => "Get" ++ Text.upperFirst name
  | .schema, _, name => name

theorem Language.identifierOf_eq (language : Language) (scope : Scope) (p : Property) :
    language.identifierOf scope p = language.spelling scope p.name := by
  cases language <;> cases scope <;> rfl

/-- Names that are no escaped reserved words stay apart when reserved words are escaped. -/
theorem Convention.injOn_safe {c : Convention} {names : Set String} (hinjective : Function.Injective c.escape)
    (hescape : ∀ name ∈ names, c.escape name ∉ names) : Set.InjOn c.safe names := by
  intro name hname name' hname' heq
  unfold safe at heq
  split at heq
  · split at heq
    · exact hinjective heq
    · exact absurd (heq ▸ hname') (hescape name hname)
  · split at heq
    · exact absurd (heq ▸ hname) (hescape name' hname')
    · exact heq

open Text (InSnakeCase LongInside)

theorem Text.injOn_canonicalName : Set.InjOn canonicalName {key | InSnakeCase key} := by
  have hleft : Set.LeftInvOn keyOfCanonicalName canonicalName {key | InSnakeCase key} :=
    fun key hkey => InSnakeCase.keyOfCanonicalName_canonicalName hkey
  exact hleft.injOn

theorem Text.injOn_upperFirst_canonicalName :
    Set.InjOn (fun key => upperFirst (canonicalName key)) {key | InSnakeCase key} := by
  have hleft : Set.LeftInvOn (fun name => keyOfCanonicalName (lowerFirst name))
      (fun key => upperFirst (canonicalName key)) {key | InSnakeCase key} := by
    intro key hkey
    dsimp only
    rw [InSnakeCase.lowerFirst_upperFirst_canonicalName hkey,
      InSnakeCase.keyOfCanonicalName_canonicalName hkey]
  exact hleft.injOn

theorem TypeScriptLibrary.injOn_constantName :
    Set.InjOn (fun key => Convention.typeScript.safe (Text.camelCase (Text.canonicalName key)))
      {key | InSnakeCase key} := by
  have hsafe : Set.InjOn Convention.typeScript.safe (Text.canonicalName '' {key | InSnakeCase key}) := by
    refine Convention.injOn_safe (fun a b heq => (String.append_right_inj "_").mp heq) ?_
    rintro _ ⟨key, -, rfl⟩ ⟨key', hkey', heq⟩
    exact InSnakeCase.not_mem_canonicalName hkey' (by rw [heq]; simp [Convention.typeScript])
  refine (hsafe.comp Text.injOn_canonicalName (Set.mapsTo_image _ _)).congr (fun key hkey => ?_)
  rw [InSnakeCase.camelCase_canonicalName hkey, Function.comp_apply]

theorem PythonLibrary.injOn_fieldName :
    Set.InjOn (fun key => Convention.python.safe (Text.snakeWords (Text.canonicalName key)))
      {key | InSnakeCase key ∧ LongInside key} := by
  have hsafe : Set.InjOn Convention.python.safe {key | InSnakeCase key ∧ LongInside key} :=
    Convention.injOn_safe (fun a b heq => (String.append_left_inj "_").mp heq)
      (fun key _ hmem => Text.not_inSnakeCase_append key hmem.1)
  refine hsafe.congr (fun key hkey => ?_)
  rw [hkey.1.snakeWords_canonicalName_iff.mpr hkey.2.keepsWordsApart]

/-- A property with the name of its class gets another name, which that of a second property may be. -/
theorem CSharpLibrary.injOn_propertyName {className : String} {keys : Set String}
    (hkeys : keys ⊆ {key | InSnakeCase key})
    (hvalue : ∀ key ∈ keys, Text.pascalCase (Text.canonicalName key) = className → key ++ "_value" ∉ keys) :
    Set.InjOn (fun key => CSharpLibrary.propertyName (Text.canonicalName key) className) keys := by
  have hinjective : Set.InjOn (fun key => Text.pascalCase (Text.canonicalName key)) {key | InSnakeCase key} :=
    Text.injOn_upperFirst_canonicalName.congr (fun key hkey =>
      (InSnakeCase.pascalCase_canonicalName hkey).symm)
  -- If one has the name of the class and the other has not, the latter is the former with `value` behind it.
  have hmixed {key key' : String} (hkey : key ∈ keys) (hkey' : key' ∈ keys)
      (hclass : Text.pascalCase (Text.canonicalName key) = className)
      (heq : Text.pascalCase (Text.canonicalName key) ++ "Value" =
        Text.pascalCase (Text.canonicalName key')) : False := by
    have hsnake : InSnakeCase key := hkeys hkey
    have hsame : key ++ "_value" = key' :=
      hinjective hsnake.append_value.1 (hkeys hkey') (hsnake.pascalCase_append_value.trans heq)
    exact hvalue key hkey hclass (hsame ▸ hkey')
  intro key hkey key' hkey' heq
  dsimp only [CSharpLibrary.propertyName] at heq
  split at heq
  · next hclass =>
    split at heq
    · next hclass' => exact hinjective (hkeys hkey) (hkeys hkey') (hclass.trans hclass'.symm)
    · exact (hmixed hkey hkey' hclass heq).elim
  · split at heq
    · next hclass' => exact (hmixed hkey' hkey hclass' heq.symm).elim
    · exact hinjective (hkeys hkey) (hkeys hkey') heq

theorem GoLibrary.injOn_fieldName :
    Set.InjOn (fun key => Convention.go.safe (Text.upperFirst (Text.canonicalName key)))
      {key | InSnakeCase key} := by
  have hsafe : Set.InjOn Convention.go.safe
      ((fun key => Text.upperFirst (Text.canonicalName key)) '' {key | InSnakeCase key}) := by
    refine Convention.injOn_safe (fun a b heq => (String.append_left_inj "_").mp heq) ?_
    rintro _ ⟨key, -, rfl⟩ ⟨key', hkey', heq⟩
    dsimp only at heq
    exact InSnakeCase.not_mem_upperFirst_canonicalName hkey' (by rw [heq]; simp [Convention.go])
  intro key hkey key' hkey' heq
  exact Text.injOn_upperFirst_canonicalName hkey hkey'
    (hsafe (Set.mem_image_of_mem _ hkey) (Set.mem_image_of_mem _ hkey') heq)

theorem GoLibrary.injOn_accessorName :
    Set.InjOn (fun key => "Get" ++ Text.upperFirst (Text.canonicalName key)) {key | InSnakeCase key} :=
  fun _ hkey _ hkey' heq =>
    Text.injOn_upperFirst_canonicalName hkey hkey' ((String.append_right_inj "Get").mp heq)

/-- What keys in snake case have to be like besides, so that a language spells them apart. -/
def Language.KeepsApart : Language → Scope → Set String → Prop
  | .python, _, keys => ∀ key ∈ keys, LongInside key
  | .dotnet, scope, keys =>
    ∀ key ∈ keys, Text.pascalCase (Text.canonicalName key) = scope.className → key ++ "_value" ∉ keys
  | _, _, _ => True

theorem Language.injOn_spelling (language : Language) (scope : Scope) {keys : Set String}
    (hkeys : ∀ key ∈ keys, InSnakeCase key) (hapart : language.KeepsApart scope keys) :
    Set.InjOn (fun key => language.spelling scope (Text.canonicalName key)) keys := by
  cases language with
  | nodejs =>
    cases scope with
    | type => exact Text.injOn_canonicalName.mono hkeys
    | config => exact TypeScriptLibrary.injOn_constantName.mono hkeys
  | python =>
    simp only [spelling]
    have hkeys' : keys ⊆ {key | InSnakeCase key ∧ LongInside key} :=
      fun key hkey => ⟨hkeys key hkey, hapart key hkey⟩
    exact PythonLibrary.injOn_fieldName.mono hkeys'
  | dotnet =>
    simp only [spelling]
    exact CSharpLibrary.injOn_propertyName hkeys hapart
  | go =>
    cases scope with
    | type => exact GoLibrary.injOn_fieldName.mono hkeys
    | config => exact GoLibrary.injOn_accessorName.mono hkeys
  | schema => exact Text.injOn_canonicalName.mono hkeys

/-- The identifiers of properties, which stand for the selected fields of an object: in every
language they are distinct exactly if it spells the names of the fields apart; and they are, if the
keys are in snake case, no field is renamed and the language keeps the keys apart. -/
structure Scope.Identifies (scope : Scope) (selected : FieldSchema → Prop) (fields : ObjectSchema)
    (overrides : OverrideLookup) (properties : List Property) : Prop where
  named : fields.Named selected overrides properties
  distinct_iff : ∀ language : Language, (properties.map (language.identifierOf scope)).Nodup ↔
    Set.InjOn (fun key => language.spelling scope (propertyName key (overrides key)))
      (fields.keysWhere selected)
  distinct : ∀ language : Language,
    (∀ key ∈ fields.keysWhere selected, InSnakeCase key ∧
      propertyName key (overrides key) = Text.canonicalName key) →
    language.KeepsApart scope (fields.keysWhere selected) →
    (properties.map (language.identifierOf scope)).Nodup

theorem ObjectSchema.Named.identifies {selected : FieldSchema → Prop} {fields : ObjectSchema}
    {overrides : OverrideLookup} {properties : List Property} (h : fields.Named selected overrides properties)
    (scope : Scope) : scope.Identifies selected fields overrides properties := by
  have hiff (language : Language) : (properties.map (language.identifierOf scope)).Nodup ↔
      Set.InjOn (fun key => language.spelling scope (propertyName key (overrides key)))
        (fields.keysWhere selected) := by
    rw [← h.nodup_map_iff (language.spelling scope)]
    simp only [← Language.identifierOf_eq]
  refine ⟨h, hiff, fun language hkeys hapart => (hiff language).mpr ?_⟩
  refine (language.injOn_spelling scope (fun key hkey => (hkeys key hkey).1) hapart).congr
    (fun key hkey => ?_)
  rw [(hkeys key hkey).2]

def Member.configVariable? : Member → Option Property
  | .variable v => some v
  | _ => none

def Package.configVariables (p : Package) : List Property := p.modules.flatMap Module.configVariables

theorem Package.configVariables_eq (p : Package) :
    p.configVariables = p.placed.filterMap (fun placed => placed.2.configVariable?) := by
  have hmodule (m : Module) : m.configVariables =
      m.placed.filterMap (fun placed => placed.2.configVariable?) := by
    rw [Module.placed, List.filterMap_map]
    rfl
  rw [configVariables, placed, List.filterMap_flatMap]
  exact List.flatMap_congr (fun m _ => hmodule m)

theorem Package.VariablesInConfig.nodup_names {p : Package} (hp : p.VariablesInConfig)
    (hnames : p.NamesDistinct) (hascend : p.ModulesAscend) :
    (p.configVariables.map (fun v => v.name)).Nodup := by
  have hconfig {m : Module} (hm : m ∈ p.modules) {v : Property} (hv : v ∈ m.configVariables) :
      m.name = configModule :=
    hp m.name v (mem_placed_of_mem_configVariables hm hv)
  rw [configVariables, List.map_flatMap, List.nodup_flatMap]
  refine ⟨fun m hm => ?_, (hascend.imp_of_mem (fun {m m'} hm hm' hlt => ?_))⟩
  · exact (hnames m hm).configVariables
  · intro name hname hname'
    obtain ⟨v, hv, -⟩ := List.mem_map.mp hname
    obtain ⟨v', hv', -⟩ := List.mem_map.mp hname'
    rw [hconfig hm hv, hconfig hm' hv'] at hlt
    exact lt_irrefl _ hlt

/-- The identifiers of a package are those of the fields of a document: of the arguments and the
results of each member, of the object types inside their types at whatever depth, and of the
configuration variables, whose names are distinct. -/
structure Document.Identifies (d : Document) (p : Package) : Prop where
  types : ∀ module member, (module, member) ∈ p.placed → ∀ position type, (position, type) ∈ member.types →
    ∃ selected fields overrides, d.Gives member position selected fields overrides ∧
      (Scope.type type.name).Identifies selected fields overrides type.properties ∧
      ∀ o ∈ propertyObjects type.properties,
        ∃ inner innerOverrides, fields.Nests overrides inner innerOverrides ∧
        (Scope.type o.name).Identifies (FieldSchema.SettableAt position) inner innerOverrides o.properties
  accessors : Scope.config.Identifies (fun _ => True) d.provider.config (fun key => d.config.lookup key)
    p.configVariables
  accessorNames : (p.configVariables.map (fun v => v.name)).Nodup

theorem ResolvedProvider.variables_placements (r : ResolvedProvider) :
    (r.placements.map (fun placement => (placement.module, placement.member))).filterMap
      (fun placed => placed.2.configVariable?) = r.config := by
  simp [placements, Function.comp_def, Member.configVariable?]

theorem Document.variables_overlayPlacements (d : Document) (overlaysDirectory : Path)
    (language : Option Language) : ((d.overlayPlacements overlaysDirectory language).map
      (fun placement => (placement.module, placement.member))).filterMap
        (fun placed => placed.2.configVariable?) = [] := by
  rw [List.filterMap_eq_nil_iff]
  intro placed hplaced
  obtain ⟨placement, hplacement, rfl⟩ := List.mem_map.mp hplaced
  obtain ⟨file, hfile⟩ := exists_overlay_of_mem_overlayPlacements hplacement
  dsimp only
  rw [hfile]
  rfl

namespace Compilation

variable (disk : Disk) (document : Document) (options : RunOptions)

theorem namedBy_of_mem_assembled (hordered : document.provider.Ordered) {module : String} {member : Member}
    (h : (module, member) ∈ (assembled disk document options).1.placed) : member.NamedBy document := by
  obtain ⟨v, -, rfl⟩ | ⟨r, hr, rfl⟩ | ⟨f, hf, rfl⟩ | ⟨file, rfl⟩ := cases_of_mem_assembled h
  · rintro position type ⟨⟩
  · obtain hprovider | ⟨item, hitem, hr⟩ := mem_resolved_resources hr
    · exact providerResource_namedBy hordered hprovider
    · exact resource_namedBy hordered hitem hr
  · obtain ⟨item, hitem, hf⟩ := mem_resolved_dataSources hf
    exact dataSource_namedBy hordered hitem hf
  · rintro position type ⟨⟩

theorem configVariables_assembled (hclean : (finished disk document options).errors = []) :
    (assembled disk document options).1.configVariables.Perm
      (resolution disk document options).resolved.config := by
  obtain ⟨made, files, hmade, hfiles, hmembers, herrors, _⟩ :=
    document.exists_fates_assemble (start document options).packageName options.version
      options.overlaysDirectory
      options.language (resolution disk document options).resolved
  have hnone : Fate.errors made ++ Fate.errors files = [] := by
    rw [errors_finished] at hclean
    rw [← Fate.errors_append, ← herrors]
    exact (List.append_eq_nil_iff.mp hclean).2
  obtain ⟨hnoneMade, hnoneFiles⟩ := List.append_eq_nil_iff.mp hnone
  have hvariables := hmembers.filterMap (fun placed => placed.2.configVariable?)
  rw [Fate.members_append, members_of_errors_eq_nil hmade hnoneMade,
    members_of_errors_eq_nil hfiles hnoneFiles, List.filterMap_append, ResolvedProvider.variables_placements,
    Document.variables_overlayPlacements, List.append_nil] at hvariables
  rw [Package.configVariables_eq]
  exact hvariables

theorem named_configVariables (hordered : document.provider.Ordered)
    (hclean : (finished disk document options).errors = []) :
    document.provider.config.Named (fun _ => True) (fun key => document.config.lookup key)
      (assembled disk document options).1.configVariables := by
  obtain hconfig | ⟨-, e, hfailure⟩ :=
    resolved_config document.paired.1 ((start document options).resolveContext disk)
  · exact (hordered.config.namesAllDeep hconfig).own.perm
      (configVariables_assembled disk document options hclean)
  · rw [errors_finished] at hclean
    have hnone : (resolution disk document options).failures = [] := by
      simpa [resolveErrors] using (List.append_eq_nil_iff.mp hclean).1
    rw [resolution] at hnone
    rw [hnone] at hfailure
    cases hfailure

/-- Every package that is taken from a run of an ordered document has identifiers which are those of
the fields of the document. Those for the fields of one object are distinct in a language exactly if
it spells their names apart; all languages do, if the keys are in snake case, no field is renamed,
no word in the middle of a key is a single letter for Python, and no property has the name of its C#
class while another has that name with `value` behind it. The names of configuration variables are
distinct whatever they are. -/
theorem run_identifies {c : Compilation} {p : Package} (hordered : document.provider.Ordered)
    (hrun : run disk document options = .ok c) (htake : c.takePackage = .ok p) : document.Identifies p := by
  cases eq_finished_of_run disk document options hrun
  have hclean : (finished disk document options).errors = [] := by
    by_contra hdirty
    rw [takePackage_of_errors hdirty] at htake
    cases htake
  rw [takePackage_of_no_errors hclean rfl] at htake
  cases htake
  refine ⟨fun module member hmember position type htype => ?_, ?_, ?_⟩
  · obtain ⟨selected, fields, overrides, hgives, hown, hnested⟩ :=
      namedBy_of_mem_assembled disk document options hordered hmember position type htype
    refine ⟨selected, fields, overrides, hgives, hown.identifies _, fun o ho => ?_⟩
    obtain ⟨inner, innerOverrides, hnests, hnamed⟩ := hnested o ho
    exact ⟨inner, innerOverrides, hnests, hnamed.identifies _⟩
  · exact (named_configVariables disk document options hordered hclean).identifies .config
  · have hconfig : (assembled disk document options).1.VariablesInConfig :=
      document.variablesInConfig_assemble _ _ _ _ _
    exact hconfig.nodup_names (document.namesDistinct_assemble _ _ _ _ _)
      (document.modulesAscend_assemble _ _ _ _ _)

/-- A configuration variable, and a resource and a data source whose keys are in snake case; objects
stand below the resource, and one key is a Python keyword. -/
def rackDocument : Document where
  name := "acme"
  provider := {
    config := [("region", .scalar .string { optional := true })]
    resources := [("acme_host",
      [("disk_size", .scalar .int { optional := true }), ("global", .scalar .bool { optional := true }),
        ("volume", .collection .list (.object [("from_copy", .scalar .string { optional := true }),
          ("id", .scalar .string { computed := true })]) { optional := true })])]
    dataSources := [("acme_host", [("name_tag", .scalar .string { optional := true })])] }
  resources := [("acme_host", { token := "acme:net:Host" })]
  dataSources := [("acme_host", { token := "acme:net:getHost" })]

theorem rackDocument_ordered : rackDocument.provider.Ordered where
  config := ⟨by rw [Json.Ascending]; decide, by simp [rackDocument, FieldSchema.Ordered.scalar]⟩
  resources := by
    intro item hitem
    obtain rfl := List.mem_singleton.mp hitem
    refine ⟨by rw [Json.Ascending]; decide, ?_⟩
    simp only [List.forall_mem_cons]
    refine ⟨.scalar, .scalar, .collection (.object (by rw [Json.Ascending]; decide) ?_), by simp⟩
    simp only [List.forall_mem_cons]
    exact ⟨.scalar, .scalar, by simp⟩
  dataSources := by
    intro item hitem
    obtain rfl := List.mem_singleton.mp hitem
    exact ⟨by rw [Json.Ascending]; decide, by simp [FieldSchema.Ordered.scalar]⟩

def argumentIdentifiers (p : Package) (language : Language) : List (List String) :=
  p.resources.map (fun r => r.inputs.map (language.identifierOf (.type r.argsTypeName)))

theorem rackDocument_identifies :
    ∃ c, run default rackDocument (plainSettings.runOptions (some .python)) = .ok c ∧
      c.takePackage = .ok (plainPackage rackDocument .python) ∧
      rackDocument.Identifies (plainPackage rackDocument .python) ∧
      argumentIdentifiers (plainPackage rackDocument .python) .nodejs =
        [["region"], ["diskSize", "global", "volume"]] ∧
      argumentIdentifiers (plainPackage rackDocument .python) .python =
        [["region"], ["disk_size", "global_", "volume"]] ∧
      argumentIdentifiers (plainPackage rackDocument .python) .dotnet =
        [["Region"], ["DiskSize", "Global", "Volume"]] := by
  have hrun : run default rackDocument (plainSettings.runOptions (some .python)) =
      .ok (finished default rackDocument (plainSettings.runOptions (some .python))) :=
    run_eq_finished default rackDocument _ (by decide)
  have htake : (finished default rackDocument (plainSettings.runOptions (some .python))).takePackage =
      .ok (plainPackage rackDocument .python) := takePackage_of_no_errors (by decide +kernel) rfl
  exact ⟨_, hrun, htake, run_identifies default rackDocument _ rackDocument_ordered hrun htake,
    by decide +kernel,
    by decide +kernel, by decide +kernel⟩

/-- Two keys in snake case, one with a word of a single letter in the middle. -/
def shardDocument : Document where
  name := "acme"
  provider := {
    resources := [("acme_host",
      [("shard_a_z", .scalar .string { optional := true }),
        ("shard_az", .scalar .string { optional := true })])] }
  resources := [("acme_host", { token := "acme:index:Host" })]

/-- The canonical names of the two are distinct, their names in Python are not: the library, which
is planned without an error, has a constructor with two parameters of one name. -/
theorem shardDocument_clashes :
    (∀ key ∈ ["shard_a_z", "shard_az"], InSnakeCase key) ∧
      ∃ c plan, run default shardDocument (plainSettings.runOptions (some .python)) = .ok c ∧
        c.takePackage = .ok (plainPackage shardDocument .python) ∧
        (plainPackage shardDocument .python).planFor .python = .ok plan ∧
        argumentIdentifiers (plainPackage shardDocument .python) .nodejs = [["shardAZ", "shardAz"]] ∧
        argumentIdentifiers (plainPackage shardDocument .python) .python = [["shard_az", "shard_az"]] ∧
        (plainPackage shardDocument .python).resources.map (fun r =>
          (PythonLibrary.ResourceFile.constructor r).head?) =
        [some (.line
          "def __init__(__self__, resource_name, opts=None, shard_az=None, shard_az=None, __props__=None):")] := by
  have hrun : run default shardDocument (plainSettings.runOptions (some .python)) =
      .ok (finished default shardDocument (plainSettings.runOptions (some .python))) :=
    run_eq_finished default shardDocument _ (by decide)
  obtain ⟨plan, hplan⟩ : ∃ plan, (plainPackage shardDocument .python).planFor .python = .ok plan :=
    exists_ok_of_toBool (by decide +kernel)
  exact ⟨by decide +kernel, _, plan, hrun, takePackage_of_no_errors (by decide +kernel) rfl, hplan,
    by decide +kernel,
    by decide +kernel, by decide +kernel⟩

end Compilation

end ProviderSdk
