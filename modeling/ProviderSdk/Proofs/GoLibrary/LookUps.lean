import ProviderSdk.GoLibrary.Plan
import ProviderSdk.Proofs.Compile.Targets
import ProviderSdk.Proofs.GoLibrary.Identifiers
import ProviderSdk.Proofs.Text.Identifiers

/-!
# Names of look-ups in a Go package

A data source whose name begins with `Get` gets another name if that name is taken when its turn
comes, by whatever it is. It is meant to give way to the look-up of a resource only: the two rules
agree exactly if nothing else takes such a name.
-/

namespace ProviderSdk.GoLibrary

def declaredBy (owner : String) (names : List String) : List Declared := names.map (fun name => ⟨name, owner⟩)

@[simp] theorem identifiers_declaredBy (owner : String) (names : List String) :
    identifiers (declaredBy owner names) = names := by
  simp [identifiers, declaredBy, Function.comp_def]

@[simp] theorem identifiers_append (ds es : List Declared) :
    identifiers (ds ++ es) = identifiers ds ++ identifiers es :=
  List.map_append

def record (known ds : List Declared) : Except EmitCause (List Declared) :=
  ds.foldlM (fun known d => declare d.owner known d.identifier) known

theorem record_append (known ds es : List Declared) :
    record known (ds ++ es) = record known ds >>= fun known => record known es :=
  List.foldlM_append

theorem declareAll_eq_record (owner : String) (known : List Declared) (names : List String) :
    declareAll owner known names = record known (declaredBy owner names) := by
  rw [declareAll, record, declaredBy, List.foldlM_map]

/-- Declarations that fail, at the first whose identifier is there already: the error has the
identifier, the owner of the one before and the owner of this one. -/
def FailsAtFirst (ds : List Declared) (e : EmitCause) : Prop :=
  ∃ before first d after, ds = before ++ d :: after ∧ (identifiers before).Nodup ∧ first ∈ before ∧
    first.identifier = d.identifier ∧ e = .identifierTwice d.identifier first.owner d.owner

theorem FailsAtFirst.not_nodup {ds : List Declared} {e : EmitCause} (h : FailsAtFirst ds e) :
    ¬ (identifiers ds).Nodup := by
  obtain ⟨before, first, d, after, rfl, -, hfirst, hsame, -⟩ := h
  intro hnodup
  rw [identifiers_append, List.nodup_append] at hnodup
  exact hnodup.2.2 _ (List.mem_map_of_mem hfirst) d.identifier (by simp [identifiers]) hsame

theorem owner?_eq_none {known : List Declared} {identifier : String} :
    owner? known identifier = none ↔ identifier ∉ identifiers known := by
  simp only [owner?, Option.map_eq_none_iff, List.find?_eq_none, beq_iff_eq, identifiers,
    List.mem_map, not_exists, not_and]

theorem exists_of_owner?_eq_some {known : List Declared} {identifier owner : String}
    (h : owner? known identifier = some owner) :
    ∃ d ∈ known, d.identifier = identifier ∧ d.owner = owner := by
  obtain ⟨d, hd, howner⟩ := Option.map_eq_some_iff.mp h
  exact ⟨d, List.mem_of_find?_eq_some hd, by simpa using List.find?_some hd, howner⟩

theorem record_cases {known : List Declared} (hknown : (identifiers known).Nodup) (ds : List Declared) :
    (record known ds = .ok (known ++ ds) ∧ (identifiers (known ++ ds)).Nodup) ∨
      ∃ e, record known ds = .error e ∧ FailsAtFirst (known ++ ds) e := by
  induction ds generalizing known with
  | nil => exact .inl ⟨by simp [record, pure, Except.pure], by simpa using hknown⟩
  | cons d rest ih =>
    rw [record, List.foldlM_cons, declare]
    cases howner : owner? known d.identifier with
    | some first =>
      obtain ⟨f, hf, hsame, rfl⟩ := exists_of_owner?_eq_some howner
      exact .inr ⟨_, rfl, known, f, d, rest, rfl, hknown, hf, hsame, rfl⟩
    | none =>
      have hnew : (identifiers (known ++ [d])).Nodup := by
        rw [identifiers_append]
        exact List.nodup_append.mpr ⟨hknown, by simp [identifiers], fun name hname other hother heq =>
          owner?_eq_none.mp howner (by simp_all [identifiers])⟩
      have hrest := ih hnew
      rwa [List.append_assoc, List.singleton_append] at hrest

def resourceDeclarations (r : Resource) : List Declared :=
  declaredBy (resourceOwner r) (resourceIdentifiers r)

def dataSourceDeclarations (f : DataSource) (name : String) : List Declared :=
  declaredBy (dataSourceOwner f) (functionIdentifiers name)

/-- What the resources of a module declare, and what data sources with the given names declare,
member after member. -/
def memberDeclarations (m : Module) (named : List (DataSource × String)) : List (List Declared) :=
  m.resources.map resourceDeclarations ++ named.map (fun e => dataSourceDeclarations e.1 e.2)

theorem flatten_memberDeclarations (m : Module) (named : List (DataSource × String)) :
    (memberDeclarations m named).flatten = m.resources.flatMap resourceDeclarations ++
      named.flatMap (fun e => dataSourceDeclarations e.1 e.2) := by
  rw [memberDeclarations, List.flatten_append, List.flatMap_def, List.flatMap_def]

/-- No two members declare the same identifier. -/
def MembersApart (members : List (List Declared)) : Prop :=
  members.Pairwise (fun ds es => ∀ d ∈ ds, d.identifier ∉ identifiers es)

instance (members : List (List Declared)) : Decidable (MembersApart members) :=
  inferInstanceAs (Decidable (List.Pairwise _ _))

theorem nodup_identifiers_flatten {members : List (List Declared)} :
    (identifiers members.flatten).Nodup ↔
      (∀ ds ∈ members, (identifiers ds).Nodup) ∧ MembersApart members := by
  rw [identifiers, List.map_flatten, List.nodup_flatten, List.pairwise_map, List.forall_mem_map, MembersApart]
  simp only [identifiers, List.disjoint_left, List.forall_mem_map]

/-- Next to what is declared already, data sources with the names of their functions: each is named
next to all that stands before it. -/
def namedBeside (known : List Declared) : List DataSource → List (DataSource × String)
  | [] => []
  | f :: rest =>
    let name := functionNameBeside known f
    (f, name) :: namedBeside (known ++ dataSourceDeclarations f name) rest

def givenNames (m : Module) : List (DataSource × String) :=
  namedBeside (m.resources.flatMap resourceDeclarations) m.dataSources

theorem record_eq_ok {known ds known' : List Declared} (h : record known ds = .ok known') :
    known' = known ++ ds := by
  induction ds generalizing known with
  | nil =>
    cases h
    simp
  | cons d rest ih =>
    rw [record, List.foldlM_cons, declare] at h
    cases howner : owner? known d.identifier with
    | some first => simp [howner, bind, Except.bind] at h
    | none =>
      rw [howner] at h
      rw [ih h, List.append_assoc, List.singleton_append]

theorem nameFunctions_eq_record (known : List Declared) (fs : List DataSource) :
    nameFunctions known fs = (record known ((namedBeside known fs).flatMap
      (fun e => dataSourceDeclarations e.1 e.2)) >>=
      fun _ => .ok ((namedBeside known fs).map (fun e => (e.1.name, e.2)))) := by
  induction fs generalizing known with
  | nil => rfl
  | cons f rest ih =>
    rw [nameFunctions, namedBeside, List.flatMap_cons, record_append, declareAll_eq_record,
      ← dataSourceDeclarations, bind_assoc, List.map_cons]
    cases hown : record known (dataSourceDeclarations f (functionNameBeside known f)) with
    | error e => rfl
    | ok known' =>
      obtain rfl := record_eq_ok hown
      simp only [ih, bind_assoc]
      rfl

theorem declareResources_eq_record (rs : List Resource) :
    declareResources rs = record [] (rs.flatMap resourceDeclarations) := by
  rw [declareResources]
  generalize ([] : List Declared) = known
  induction rs generalizing known with
  | nil => rfl
  | cons r rest ih =>
    rw [List.foldlM_cons, List.flatMap_cons, record_append, declareAll_eq_record, ← resourceDeclarations]
    exact bind_congr ih

theorem map_fst_namedBeside (known : List Declared) (fs : List DataSource) :
    (namedBeside known fs).map Prod.fst = fs := by
  induction fs generalizing known with
  | nil => rfl
  | cons f rest ih => rw [namedBeside, List.map_cons, ih]

theorem functionNames_cases (m : Module) :
    (functionNames m = .ok ((givenNames m).map (fun e => (e.1.name, e.2))) ∧
        (identifiers (memberDeclarations m (givenNames m)).flatten).Nodup) ∨
      ∃ e, functionNames m = .error e ∧ FailsAtFirst (memberDeclarations m (givenNames m)).flatten e := by
  have hnames : functionNames m = (record [] (memberDeclarations m (givenNames m)).flatten >>=
      fun _ => .ok ((givenNames m).map (fun e => (e.1.name, e.2)))) := by
    rw [functionNames, declareResources_eq_record, flatten_memberDeclarations, record_append, bind_assoc]
    cases hresources : record [] (m.resources.flatMap resourceDeclarations) with
    | error e => rfl
    | ok known =>
      obtain rfl := record_eq_ok hresources
      exact nameFunctions_eq_record _ _
  have hnone : (identifiers []).Nodup := List.nodup_nil
  rcases record_cases hnone (memberDeclarations m (givenNames m)).flatten with
    ⟨hok, hnodup⟩ | ⟨e, herror, hfails⟩
  · rw [hok] at hnames
    exact .inl ⟨hnames, hnodup⟩
  · rw [herror] at hnames
    exact .inr ⟨e, hnames, hfails⟩

theorem functionNames_eq_ok_iff {m : Module} : (∃ names, functionNames m = .ok names) ↔
    (identifiers (memberDeclarations m (givenNames m)).flatten).Nodup := by
  rcases functionNames_cases m with ⟨hok, hnodup⟩ | ⟨e, herror, hfails⟩
  · exact iff_of_true ⟨_, hok⟩ hnodup
  · exact iff_of_false (by simp [herror]) hfails.not_nodup

theorem nodup_functionIdentifiers (name : String) : (functionIdentifiers name).Nodup := by
  have hlength {suffix suffix' : String} (h : suffix.length ≠ suffix'.length) :
      name ++ suffix ≠ name ++ suffix' :=
    fun heq => h (by simpa using congrArg String.length heq)
  have hname {suffix : String} (h : suffix.length ≠ 0) : name ≠ name ++ suffix :=
    fun heq => h (by simpa using congrArg String.length heq)
  simp only [functionIdentifiers, List.nodup_cons, List.mem_cons, List.not_mem_nil, or_false, not_or]
  exact ⟨⟨hname (by decide), hname (by decide)⟩, hlength (by decide), not_false, List.nodup_nil⟩

theorem length_le_lowerFirst (s : String) : s.length ≤ (Text.lowerFirst s).length := by
  rw [Text.lowerFirst, String.length_ofList, ← String.length_toList]
  cases s.toList with
  | nil => exact le_rfl
  | cons c rest =>
    have hpos := List.length_pos_iff.mpr (Text.keepsMarks_lowerOf.ne_nil c)
    simp only [Text.uncapitalized_cons, List.length_cons, List.length_append]
    omega

/-- A resource declares an identifier twice exactly if the name of its arguments has no upper-case
letter to begin with. -/
theorem nodup_resourceIdentifiers {r : Resource} :
    (resourceIdentifiers r).Nodup ↔ plainArgsName r ≠ r.argsTypeName := by
  have hargs : r.argsTypeName.length = r.name.length + 4 := String.length_append _ _
  have hplain : r.argsTypeName.length ≤ (plainArgsName r).length := length_le_lowerFirst r.argsTypeName
  have hnew : (newName r).length = 3 + r.name.length := String.length_append _ _
  have hget : (getName r).length = 3 + r.name.length := String.length_append _ _
  have hdifferent : newName r ≠ getName r := by
    intro heq
    have hhead := congrArg (fun s => s.toList.head?) heq
    simp [newName, getName] at hhead
  have hne {s t : String} (h : s.length ≠ t.length) : s ≠ t := fun heq => h (congrArg String.length heq)
  have hname : r.name ∉ [newName r, plainArgsName r, r.argsTypeName, getName r] := by
    simp only [List.mem_cons, List.not_mem_nil, or_false, not_or]
    exact ⟨hne (by omega), hne (by omega), hne (by omega), hne (by omega)⟩
  have hcreation : newName r ∉ [plainArgsName r, r.argsTypeName, getName r] := by
    simp only [List.mem_cons, List.not_mem_nil, or_false, not_or]
    exact ⟨hne (by omega), hne (by omega), hdifferent⟩
  have hlast : plainArgsName r ≠ getName r ∧ r.argsTypeName ≠ getName r := ⟨hne (by omega), hne (by omega)⟩
  rw [resourceIdentifiers]
  cases r.isProvider <;> simp_all

theorem functionNameBeside_of_get (known : List Declared) {f : DataSource} {x : String}
    (h : Text.upperFirst f.name = "Get" ++ x) :
    functionNameBeside known f = if "Get" ++ x ∈ identifiers known then "Lookup" ++ x else "Get" ++ x := by
  have htaken : (owner? known ("Get" ++ x)).isSome ↔ "Get" ++ x ∈ identifiers known := by
    rw [Option.isSome_iff_ne_none, ne_eq, owner?_eq_none, not_not]
  simp only [functionNameBeside, h, htaken, Text.dropStart?_eq_some.mpr rfl]

theorem functionNameBeside_of_ne_get (known : List Declared) {f : DataSource}
    (h : ∀ x, Text.upperFirst f.name ≠ "Get" ++ x) : functionNameBeside known f = Text.upperFirst f.name := by
  have hnone : Text.dropStart? "Get" (Text.upperFirst f.name) = none :=
    Option.eq_none_iff_forall_ne_some.mpr (fun x hx => h x (Text.dropStart?_eq_some.mp hx))
  simp only [functionNameBeside, hnone, ite_self]

theorem name_of_namedBeside_eq {known : List Declared} {fs : List DataSource}
    {before after : List (DataSource × String)} {f : DataSource} {name : String}
    (h : namedBeside known fs = before ++ (f, name) :: after) :
    name = functionNameBeside (known ++ before.flatMap (fun e => dataSourceDeclarations e.1 e.2)) f := by
  induction fs generalizing known before with
  | nil => simp [namedBeside] at h
  | cons first rest ih =>
    rw [namedBeside] at h
    cases before with
    | nil =>
      obtain ⟨hfirst, -⟩ := List.cons.inj h
      cases hfirst
      simp
    | cons e before =>
      obtain ⟨hfirst, hrest⟩ := List.cons.inj h
      cases hfirst
      rw [ih hrest, List.flatMap_cons, List.append_assoc]

def looksUp (m : Module) (x : String) : Bool := m.resources.any (fun r => !r.isProvider && r.name == x)

/-- The name that the function of a data source is meant to have: `getX` beside a resource `X` is
`LookupX`. -/
def ruledName (m : Module) (f : DataSource) : String :=
  match Text.dropStart? "Get" (Text.upperFirst f.name) with
  | some x => if looksUp m x then "Lookup" ++ x else Text.upperFirst f.name
  | none => Text.upperFirst f.name

def ruledNames (m : Module) : List (DataSource × String) := m.dataSources.map (fun f => (f, ruledName m f))

def keepsGetName (m : Module) (f : DataSource) : Bool :=
  (Text.dropStart? "Get" (Text.upperFirst f.name)).any (fun x => !looksUp m x)

/-- The names that begin with `Get` and that data sources are meant to keep are neither the name of
a resource or of its arguments nor an identifier of a data source before. -/
structure GetNamesFree (m : Module) : Prop where
  resources : ∀ f ∈ m.dataSources, keepsGetName m f → ∀ r ∈ m.resources,
    r.name ≠ Text.upperFirst f.name ∧ r.argsTypeName ≠ Text.upperFirst f.name
  dataSources : m.dataSources.Pairwise (fun g f => keepsGetName m f →
    Text.upperFirst f.name ∉ functionIdentifiers (ruledName m g))

instance (m : Module) : Decidable (GetNamesFree m) :=
  decidable_of_iff (_ ∧ _) ⟨fun h => ⟨h.1, h.2⟩, fun h => ⟨h.1, h.2⟩⟩

theorem ruledName_of_keepsGetName {m : Module} {f : DataSource} (h : keepsGetName m f) :
    ruledName m f = Text.upperFirst f.name := by
  rw [keepsGetName, Option.any_eq_true] at h
  obtain ⟨x, hx, hnone⟩ := h
  rw [ruledName, hx]
  exact if_neg (by simpa using hnone)

theorem functionNameBeside_eq_ruledName_iff {m : Module} {known : List Declared}
    (hknown : ∀ x, looksUp m x → "Get" ++ x ∈ identifiers known) (f : DataSource) :
    functionNameBeside known f = ruledName m f ↔
      (keepsGetName m f → Text.upperFirst f.name ∉ identifiers known) := by
  rw [ruledName, keepsGetName]
  cases hstart : Text.dropStart? "Get" (Text.upperFirst f.name) with
  | none =>
    have hne : ∀ x, Text.upperFirst f.name ≠ "Get" ++ x := fun x hx => by
      rw [Text.dropStart?_eq_some.mpr hx] at hstart
      cases hstart
    simp [functionNameBeside_of_ne_get known hne]
  | some x =>
    have hget := Text.dropStart?_eq_some.mp hstart
    rw [functionNameBeside_of_get known hget, hget]
    cases hlooks : looksUp m x with
    | true => simp [hlooks, hknown x hlooks]
    | false => by_cases htaken : "Get" ++ x ∈ identifiers known <;> simp [hlooks, htaken]

theorem namedBeside_eq_iff {m : Module} {known : List Declared}
    (hknown : ∀ x, looksUp m x → "Get" ++ x ∈ identifiers known) (fs : List DataSource) :
    namedBeside known fs = fs.map (fun f => (f, ruledName m f)) ↔
      (∀ f ∈ fs, keepsGetName m f → Text.upperFirst f.name ∉ identifiers known) ∧
        fs.Pairwise (fun g f => keepsGetName m f →
          Text.upperFirst f.name ∉ functionIdentifiers (ruledName m g)) := by
  induction fs generalizing known with
  | nil => simp [namedBeside]
  | cons f rest ih =>
    rw [namedBeside, List.map_cons, List.cons.injEq, Prod.mk.injEq, List.forall_mem_cons, List.pairwise_cons,
      ← functionNameBeside_eq_ruledName_iff hknown]
    by_cases hname : functionNameBeside known f = ruledName m f
    · have hmore : ∀ x, looksUp m x → "Get" ++ x ∈
          identifiers (known ++ dataSourceDeclarations f (ruledName m f)) :=
        fun x hx => by simp [hknown x hx]
      rw [hname, ih hmore]
      simp only [identifiers_append, dataSourceDeclarations, identifiers_declaredBy, List.mem_append, not_or]
      grind
    · simp [hname]

/-- An identifier of a resource that begins with `Get` is the name of the resource or of its
arguments, or its look-up. -/
theorem get_mem_resourceIdentifiers {r : Resource} {x : String} : "Get" ++ x ∈ resourceIdentifiers r ↔
    (r.isProvider = false ∧ r.name = x) ∨ r.name = "Get" ++ x ∨ r.argsTypeName = "Get" ++ x := by
  have hnew : "Get" ++ x ≠ newName r := by
    intro heq
    have hhead := congrArg (fun s => s.toList.head?) heq
    simp [newName] at hhead
  have hplain : "Get" ++ x ≠ plainArgsName r := by
    intro heq
    have hchars := congrArg String.toList heq
    rw [plainArgsName, Text.lowerFirst, String.toList_ofList] at hchars
    cases hname : r.argsTypeName.toList with
    | nil => simp [hname, Text.uncapitalized] at hchars
    | cons c rest =>
      obtain ⟨first, more, hfirst⟩ := List.exists_cons_of_ne_nil (Text.keepsMarks_lowerOf.ne_nil c)
      have hlower := Text.not_isUpper_lowerOf c first (by simp [hfirst])
      rw [hname, Text.uncapitalized_cons, hfirst] at hchars
      obtain rfl : 'G' = first := by simpa using congrArg List.head? hchars
      exact absurd hlower (by decide)
  have hget : "Get" ++ x = getName r ↔ r.name = x := by
    rw [getName, String.append_right_inj, eq_comm]
  rw [resourceIdentifiers]
  cases r.isProvider <;> simp [hnew, hplain, hget, eq_comm (a := "Get" ++ x)]
  exact or_rotate.symm

theorem mem_identifiers_resources {m : Module} {name : String} :
    name ∈ identifiers (m.resources.flatMap resourceDeclarations) ↔
      ∃ r ∈ m.resources, name ∈ resourceIdentifiers r := by
  simp [identifiers, resourceDeclarations, declaredBy]

theorem getName_mem_of_looksUp {m : Module} {x : String} (h : looksUp m x) :
    "Get" ++ x ∈ identifiers (m.resources.flatMap resourceDeclarations) := by
  obtain ⟨r, hr, hx⟩ := List.any_eq_true.mp h
  simp only [Bool.and_eq_true, Bool.not_eq_eq_eq_not, Bool.not_true, beq_iff_eq] at hx
  exact mem_identifiers_resources.mpr ⟨r, hr, get_mem_resourceIdentifiers.mpr (.inl hx)⟩

/-- Data sources get the names that they are meant to have exactly if no other name that begins with
`Get` is taken. -/
theorem givenNames_eq_ruledNames_iff (m : Module) : givenNames m = ruledNames m ↔ GetNamesFree m := by
  have hfree {f : DataSource} (hf : keepsGetName m f) :
      Text.upperFirst f.name ∉ identifiers (m.resources.flatMap resourceDeclarations) ↔
        ∀ r ∈ m.resources, r.name ≠ Text.upperFirst f.name ∧ r.argsTypeName ≠ Text.upperFirst f.name := by
    rw [keepsGetName, Option.any_eq_true] at hf
    obtain ⟨x, hx, hnone⟩ := hf
    have hother : ∀ r ∈ m.resources, ¬ (r.isProvider = false ∧ r.name = x) := by
      simpa [looksUp] using hnone
    rw [Text.dropStart?_eq_some.mp hx, mem_identifiers_resources, not_exists]
    refine forall_congr' (fun r => not_and.trans (forall_congr' (fun hr => ?_)))
    rw [get_mem_resourceIdentifiers, or_iff_right (hother r hr), not_or]
  rw [givenNames, ruledNames, namedBeside_eq_iff (fun x => getName_mem_of_looksUp)]
  constructor
  · rintro ⟨hresources, hsources⟩
    exact ⟨fun f hf hkeeps => (hfree hkeeps).mp (hresources f hf hkeeps), hsources⟩
  · rintro ⟨hresources, hsources⟩
    exact ⟨fun f hf hkeeps => (hfree hkeeps).mpr (hresources f hf hkeeps), hsources⟩

/-- With the names that data sources are meant to have, a name that is taken is declared by two members. -/
theorem getNamesFree_of_membersApart {m : Module} (h : MembersApart (memberDeclarations m (ruledNames m))) :
    GetNamesFree m := by
  simp only [memberDeclarations, ruledNames, List.map_map, Function.comp_def] at h
  obtain ⟨-, hsources, hboth⟩ := List.pairwise_append.mp h
  have hdeclares {f : DataSource} (hkeeps : keepsGetName m f) :
      Text.upperFirst f.name ∈ identifiers (dataSourceDeclarations f (ruledName m f)) := by
    simp [dataSourceDeclarations, functionIdentifiers, ruledName_of_keepsGetName hkeeps]
  constructor
  · intro f hf hkeeps r hr
    have hapart := hboth _ (List.mem_map_of_mem hr) _ (List.mem_map_of_mem hf)
    have hne {name : String} (hname : name ∈ resourceIdentifiers r) : name ≠ Text.upperFirst f.name := by
      rintro rfl
      have hdeclared : ⟨Text.upperFirst f.name, resourceOwner r⟩ ∈ resourceDeclarations r :=
        List.mem_map_of_mem hname
      exact hapart _ hdeclared (hdeclares hkeeps)
    exact ⟨hne (by simp [resourceIdentifiers]), hne (by simp [resourceIdentifiers])⟩
  · rw [List.pairwise_map] at hsources
    refine hsources.imp (fun {g f} hapart hkeeps hname => ?_)
    have hdeclared : ⟨Text.upperFirst f.name, dataSourceOwner g⟩ ∈ dataSourceDeclarations g (ruledName m g) :=
      List.mem_map_of_mem hname
    exact hapart _ hdeclared (hdeclares hkeeps)

/-- Whether all data sources of a module are named and, if not, with which error; how a data source
is named next to what the resources and the data sources before it declare; and when these are the
names that the data sources are meant to have. If they are not, the rule that they break wants two
members to clash. -/
theorem functionNames_rule {m : Module} (hm : m.NamesDistinct) :
    ((∃ names, functionNames m = .ok names) ↔
      MembersApart (memberDeclarations m (givenNames m)) ∧
        ∀ r ∈ m.resources, plainArgsName r ≠ r.argsTypeName) ∧
    (∀ names, functionNames m = .ok names → m.dataSources.map (fun f => (f, names.nameOf f)) = givenNames m) ∧
    (∀ e, functionNames m = .error e → FailsAtFirst (memberDeclarations m (givenNames m)).flatten e) ∧
    (∀ before f name after, givenNames m = before ++ (f, name) :: after →
      (∀ x, Text.upperFirst f.name = "Get" ++ x →
        (looksUp m x → name = "Lookup" ++ x) ∧
        name = if "Get" ++ x ∈ identifiers (memberDeclarations m before).flatten then "Lookup" ++ x
          else "Get" ++ x) ∧
      ((∀ x, Text.upperFirst f.name ≠ "Get" ++ x) → name = Text.upperFirst f.name)) ∧
    (givenNames m = ruledNames m ↔ GetNamesFree m) ∧
    (¬ GetNamesFree m → ¬ MembersApart (memberDeclarations m (ruledNames m))) := by
  refine ⟨?_, ?_, ?_, ?_, givenNames_eq_ruledNames_iff m, mt getNamesFree_of_membersApart⟩
  · have hown : (∀ ds ∈ memberDeclarations m (givenNames m), (identifiers ds).Nodup) ↔
        ∀ r ∈ m.resources, plainArgsName r ≠ r.argsTypeName := by
      simp only [memberDeclarations, List.mem_append, or_imp, forall_and, List.forall_mem_map,
        resourceDeclarations, dataSourceDeclarations, identifiers_declaredBy, nodup_functionIdentifiers,
        implies_true, and_true, nodup_resourceIdentifiers]
    rw [functionNames_eq_ok_iff, nodup_identifiers_flatten, hown, and_comm]
  · intro names hnames
    obtain ⟨hok, -⟩ | ⟨e, he, -⟩ := functionNames_cases m
    · have hfst : (givenNames m).map Prod.fst = m.dataSources := map_fst_namedBeside _ _
      obtain rfl : (givenNames m).map (fun e => (e.1.name, e.2)) = names :=
        Except.ok.inj (hok.symm.trans hnames)
      have hsnd := map_nameOf (functionNames_eq_ok hnames).1 hm.dataSources
      rw [List.map_map] at hsnd
      rw [List.map_prod_left_eq_zip, hsnd, ← hfst]
      exact (List.zip_of_prod rfl rfl).symm
    · rw [he] at hnames
      cases hnames
  · intro e he
    rcases functionNames_cases m with ⟨hok, -⟩ | ⟨e', he', hfails⟩
    · rw [hok] at he
      cases he
    · rw [he'] at he
      cases he
      exact hfails
  · intro before f name after hsplit
    have hname := name_of_namedBeside_eq hsplit
    rw [← flatten_memberDeclarations] at hname
    refine ⟨fun x hx => ?_, fun hne => hname.trans (functionNameBeside_of_ne_get _ hne)⟩
    rw [functionNameBeside_of_get _ hx] at hname
    refine ⟨fun hlooks => ?_, hname⟩
    rw [hname, if_pos]
    rw [flatten_memberDeclarations, identifiers_append]
    exact List.mem_append_left _ (getName_mem_of_looksUp hlooks)

/-- A document with a resource and data sources that look up one and many of it. -/
def hostsDocument : Document where
  name := "acme"
  provider := {
    resources := [("acme_host", [("size", .scalar .int { optional := true })])]
    dataSources := [("acme_host", [("size", .scalar .int { computed := true })]),
      ("acme_hosts", [("size", .scalar .int { computed := true })])] }
  resources := [("acme_host", { token := "acme:index:Host" })]
  dataSources :=
    [("acme_host", { token := "acme:index:getHost" }), ("acme_hosts", { token := "acme:index:getHosts" })]

theorem hostsDocument_follows_rule :
    ∃ m ∈ (Compilation.plainPackage hostsDocument .go).modules, m.NamesDistinct ∧
    (functionNames m).toOption = some [("getHost", "LookupHost"), ("getHosts", "GetHosts")] ∧
    givenNames m = ruledNames m := by
  have hnamed : ∃ m ∈ (Compilation.plainPackage hostsDocument .go).modules, m.NamesDistinct ∧
      (functionNames m).toOption = some [("getHost", "LookupHost"), ("getHosts", "GetHosts")] ∧
        GetNamesFree m := by
    unfold Module.NamesDistinct
    decide +kernel
  obtain ⟨m, hm, hdistinct, hnames, hfree⟩ := hnamed
  exact ⟨m, hm, hdistinct, hnames, (functionNames_rule hdistinct).2.2.2.2.1.mpr hfree⟩

/-- A document with a resource whose name begins with `Get` and a data source of the same name but
for its first letter. -/
def getHostDocument : Document where
  name := "acme"
  provider := {
    resources := [("acme_get_host", [("size", .scalar .int { optional := true })])]
    dataSources := [("acme_host", [("size", .scalar .int { computed := true })])] }
  resources := [("acme_get_host", { token := "acme:index:GetHost" })]
  dataSources := [("acme_host", { token := "acme:index/host:getHost" })]

/-- The library is planned: the data source gives way to a resource that is no look-up, and no
resource has the name that it is said to look up. -/
theorem getHostDocument_breaks_rule :
    (∃ warnings, getHostDocument.prepare default Compilation.plainSettings .go =
        .ok ⟨Compilation.plainPackage getHostDocument .go, warnings⟩) ∧
      (∃ plan, GoLibrary.plan (Compilation.plainPackage getHostDocument .go) = .ok plan) ∧
      ∃ m ∈ (Compilation.plainPackage getHostDocument .go).modules,
        (functionNames m).toOption = some [("getHost", "LookupHost")] ∧ looksUp m "Host" = false ∧
        (ruledNames m).map Prod.snd = ["GetHost"] ∧ ¬ MembersApart (memberDeclarations m (ruledNames m)) :=
  ⟨Compilation.exists_prepared default getHostDocument (by decide) (by decide +kernel),
    exists_ok_of_toBool (by decide +kernel), by decide +kernel⟩

end ProviderSdk.GoLibrary
