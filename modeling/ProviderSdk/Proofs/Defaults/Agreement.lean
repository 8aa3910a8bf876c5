import ProviderSdk.Language
import ProviderSdk.Proofs.Defaults.Expressions

/-!
# Where defaults agree

When the default that a library fills in for a truth value is the one that the provider takes. All
libraries decide by the first variable that is set, and go on to no later one if its text means
nothing; Python takes a variable that is set to false for none if there is a literal.
-/

namespace ProviderSdk.Defaults

open Code

section

variable {g : Guard} {env : Environment} {names : List String}

theorem truthOf?_eq_some_false_iff {raw : String} : truthOf? raw = some false ↔ raw ∈ falseTexts := by
  constructor
  · intro h
    rw [truthOf?] at h
    split at h
    · cases h
    · split at h
      · next hfalse => exact List.contains_iff_mem.mp hfalse
      · cases h
  · revert raw
    decide +kernel

theorem json?_ofBool? (b : Option Bool) : (Value.ofBool? b).json? = b.map Json.bool := by
  cases b <;> rfl

/-- The value of the first variable whose text means one. -/
def firstTruth? (env : Environment) (names : List String) : Option Bool :=
  names.findSome? (fun name => (env name).bind truthOf?)

theorem firstEnvValue?_bool :
    firstEnvValue? (.scalar .bool) env names = (firstTruth? env names).map Json.bool := by
  have hvalue (name : String) :
      (env name).bind (envValue? (.scalar .bool)) = ((env name).bind truthOf?).map Json.bool := by
    cases env name with
    | none => rfl
    | some raw => exact envValue?_bool raw
  simp only [firstEnvValue?, firstTruth?, hvalue, List.map_findSome?]
  rfl

theorem firstEnvValue?_eq_none_iff {kind : ValueKind} :
    firstEnvValue? kind env names = none ↔ ∀ name ∈ names, (env name).bind (envValue? kind) = none :=
  List.findSome?_eq_none_iff

theorem truthOf?_of_not_passes {raw : String} (h : g.passes (.text raw) = false) : truthOf? raw = none := by
  cases g with
  | present => cases h
  | truthy =>
    obtain rfl : raw = "" := by simpa [Guard.passes] using h
    rfl

/-- What the first variable gives that passes is also what the first variable gives that means something. -/
theorem firstTruth?_of_found? {b : Bool} (h : found? g env names = some b) :
    firstTruth? env names = some b := by
  induction names with
  | nil => cases h
  | cons name rest ih =>
    rw [found?, firstSet?, List.findSome?_cons] at h
    rw [firstTruth?, List.findSome?_cons]
    cases hraw : env name with
    | none =>
      rw [hraw] at h
      exact ih h
    | some raw =>
      rw [hraw, Option.filter_some] at h
      cases hpasses : g.passes (.text raw) with
      | true =>
        rw [if_pos hpasses] at h
        rw [Option.bind_some]
        have htruth : truthOf? raw = some b := h
        rw [htruth]
      | false =>
        rw [if_neg (by simp [hpasses])] at h
        rw [Option.bind_some, truthOf?_of_not_passes hpasses]
        exact ih h

theorem found?_eq_none_of_unset (h : ∀ name ∈ names, env name = none) : found? g env names = none := by
  have hset : firstSet? g env names = none :=
    List.findSome?_eq_none_iff.mpr (fun name hname => by rw [h name hname]; rfl)
  rw [found?, hset]
  rfl

end

section

variable {p : Property} {f : PairedField} {d : DefaultOverride} {c : DefaultCode}

/-- For a collection that stands for its only element every text is a value, and none of them is a
truth value. -/
theorem firstEnvValue?_collection {kind : CollectionKind} {env : Environment} {names : List String}
    (h : firstEnvValue? (.collection kind) env names ≠ none) :
    ∃ raw, firstEnvValue? (.collection kind) env names = some (.str raw) := by
  obtain ⟨value, hvalue⟩ := Option.ne_none_iff_exists'.mp h
  obtain ⟨name, -, hname⟩ := List.exists_of_findSome?_eq_some hvalue
  obtain ⟨raw, -, hraw⟩ := Option.bind_eq_some_iff.mp hname
  cases hraw
  exact ⟨raw, hvalue⟩

theorem unset_of_collection {kind : CollectionKind} {env : Environment} {names : List String}
    (h : ∀ name ∈ names, (env name).bind (envValue? (.collection kind)) = none) :
    ∀ name ∈ names, env name = none := by
  intro name hname
  have hnone := h name hname
  cases hraw : env name with
  | none => rfl
  | some raw =>
    rw [hraw] at hnone
    cases hnone

/-- A default without a literal is what the provider takes exactly if the first variable that passes
the test of the library means a truth value, or if no variable has a value and nothing stands behind
them. -/
theorem DefaultOf.found?_agrees_iff (h : DefaultOf p f d c) (hliteral : c.literal = none) (g : Guard)
    (props : Properties) (env : Environment) :
    resolveDefault f.schema f.override none none props env = (Value.ofBool? (found? g env c.envNames)).json? ↔
      (f.schema.kind = .scalar .bool ∧ (found? g env c.envNames).isSome = true) ∨
        ((∀ name ∈ c.envNames, (env name).bind (envValue? f.schema.kind) = none) ∧
          behind? f.schema d props = none) := by
  rw [h.resolveDefault_eq, hliteral, Option.map_none, Option.none_or, json?_ofBool?,
    ← firstEnvValue?_eq_none_iff]
  obtain hkind | ⟨kind, hkind⟩ := h.kind
  · rw [hkind, firstEnvValue?_bool]
    cases hfound : found? g env c.envNames with
    | some b => simp [firstTruth?_of_found? hfound]
    | none => simp [Option.or_eq_none_iff]
  · rw [hkind]
    cases hfirst : firstEnvValue? (.collection kind) env c.envNames with
    | some value =>
      obtain ⟨raw, hraw⟩ := firstEnvValue?_collection (by rw [hfirst]; simp)
      obtain rfl := Option.some.inj (hfirst.symm.trans hraw)
      cases found? g env c.envNames <;> simp
    | none =>
      have hunset := unset_of_collection (firstEnvValue?_eq_none_iff.mp hfirst)
      rw [found?_eq_none_of_unset hunset]
      simp

/-- When Python and the provider take the same default: a variable that is set belongs to a truth
value, and is not false beside a true literal; and nothing stands behind a default that gives no
value. -/
def PythonAgrees (f : FieldSchema) (d : DefaultOverride) (c : DefaultCode) (props : Properties)
    (env : Environment) :
    Prop :=
  (∀ name ∈ c.envNames, ∀ raw, env name = some raw →
      f.kind = .scalar .bool ∧ ¬ (raw ∈ falseTexts ∧ c.literal = some true)) ∧
    ((∀ name ∈ c.envNames, (env name).bind (envValue? f.kind) = none) → c.literal = none →
      behind? f d props = none)

/-- Without a variable that is set only the literal is left. -/
theorem DefaultOf.trueOr_agrees_unset (h : DefaultOf p f d c) (props : Properties) (env : Environment)
    (hunset : ∀ name ∈ c.envNames, env name = none) :
    resolveDefault f.schema f.override none none props env =
        (Value.ofBool? (trueOr (found? .present env c.envNames) c.literal)).json? ↔
      PythonAgrees f.schema d c props env := by
  have hvalue : ∀ name ∈ c.envNames, (env name).bind (envValue? f.schema.kind) = none := by
    intro name hname
    rw [hunset name hname]
    rfl
  have hset : ∀ name ∈ c.envNames, ∀ raw, env name = some raw →
      f.schema.kind = .scalar .bool ∧ ¬ (raw ∈ falseTexts ∧ c.literal = some true) := by
    intro name hname raw hraw
    rw [hunset name hname] at hraw
    cases hraw
  rw [PythonAgrees, and_iff_right hset, imp_iff_right hvalue, h.resolveDefault_eq, json?_ofBool?,
    firstEnvValue?_eq_none_iff.mpr hvalue, found?_eq_none_of_unset hunset]
  cases c.literal <;> simp [trueOr]

/-- The one variable decides if it is set, for the provider always and for Python if it is true. -/
theorem DefaultOf.trueOr_agrees_set (h : DefaultOf p f d c) (props : Properties) (env : Environment)
    {name raw : String} (hnames : c.envNames = [name]) (hraw : env name = some raw) :
    resolveDefault f.schema f.override none none props env =
        (Value.ofBool? (trueOr (found? .present env c.envNames) c.literal)).json? ↔
      PythonAgrees f.schema d c props env := by
  have hfirst : firstEnvValue? f.schema.kind env [name] = envValue? f.schema.kind raw := by
    simp [firstEnvValue?, hraw]
  have hfound : found? .present env [name] = truthOf? raw := by
    rw [found?, firstSet?, List.findSome?_cons, hraw]
    rfl
  rw [PythonAgrees, h.resolveDefault_eq, json?_ofBool?, hnames, hfirst, hfound]
  simp only [List.mem_singleton, forall_eq, hraw, Option.some.injEq, Option.bind_some, forall_eq']
  obtain hkind | ⟨kind, hkind⟩ := h.kind
  · rw [hkind, envValue?_bool, ← truthOf?_eq_some_false_iff]
    cases truthOf? raw with
    | none => cases c.literal <;> simp [trueOr]
    | some b => cases b <;> cases c.literal <;> simp [trueOr]
  · rw [hkind]
    cases trueOr (truthOf? raw) c.literal <;> simp [envValue?]

/-- What Python makes of a literal and of at most one variable, against what the provider takes. -/
theorem DefaultOf.trueOr_agrees_iff (h : DefaultOf p f d c) (hone : c.names.length ≤ 1) (props : Properties)
    (env : Environment) :
    resolveDefault f.schema f.override none none props env =
        (Value.ofBool? (trueOr (found? .present env c.envNames) c.literal)).json? ↔
      PythonAgrees f.schema d c props env := by
  match hnames : c.names, hone with
  | [], _ => exact h.trueOr_agrees_unset props env (by simp [DefaultCode.envNames, hnames])
  | [name], _ =>
    have hnames : c.envNames = [name.text] := by rw [DefaultCode.envNames, hnames]; rfl
    cases hraw : env name.text with
    | none => exact h.trueOr_agrees_unset props env (by simpa [hnames] using hraw)
    | some raw => exact h.trueOr_agrees_set props env hnames hraw

end

end ProviderSdk.Defaults

namespace ProviderSdk

open Code Defaults

variable {p : Property} {f : PairedField} {d : DefaultOverride} {c : DefaultCode}

/-- What a Python library writes for the default of a truth value, with a literal or none and at
most one variable, comes to the default that the provider takes exactly if a variable that is set to
false does not stand beside a true literal; and, where neither gives a value, nothing stands behind
them. -/
theorem PythonLibrary.default_agrees_iff (h : DefaultOf p f d c) (hone : c.names.length ≤ 1)
    (props : Properties) (env : Environment) :
    Utilities.getEnv = dialect.steps reader.search ∧ Utilities.getEnvBool = dialect.steps reader.truth ∧
      defaultText? p = operator.text? dialect (c.terms reader.truth.name) ∧
      operator.value (reader.machine env) (c.terms reader.truth.name) =
        .ofBool? (trueOr (found? .present env c.envNames) c.literal) ∧
      (resolveDefault f.schema f.override none none props env =
          (operator.value (reader.machine env) (c.terms reader.truth.name)).json? ↔
        PythonAgrees f.schema d c props env) := by
  have hvalue := Operator.value_of_truthy readsFirst_reader env c (rfl : operator.guard = .truthy)
  refine ⟨steps_reader.1.symm, steps_reader.2.symm, defaultText?_eq h, hvalue, ?_⟩
  rw [hvalue]
  exact h.trueOr_agrees_iff hone props env

def flagOverride (c : DefaultCode) : DefaultOverride where
  value := c.literal.map Json.bool
  envVars := c.envNames

def flagField (c : DefaultCode) : PairedField where
  key := "debug"
  schema := .scalar .bool { optional := true }
  override := some { default := some (flagOverride c) }
  element := none

def flagProperty (c : DefaultCode) : Property :=
  propertyOf "debug" (flagField c).schema (flagField c).override .bool .input none

theorem defaultOf_flagField (c : DefaultCode) :
    DefaultOf (flagProperty c) (flagField c) (flagOverride c) c where
  resolved := ⟨"acme", "Provider", .input, none, rfl⟩
  type := rfl
  override := rfl
  envNames := rfl
  literal := rfl

def debugCode : DefaultCode := ⟨[⟨"ACME_DEBUG", rfl⟩], some true⟩

def onlySet (name raw : String) : Environment := fun other => if other = name then some raw else none

theorem PythonLibrary.debugDefault_agrees :
    defaultText? (flagProperty debugCode) = some "(utilities.get_env_bool('ACME_DEBUG') or True)" ∧
      resolveDefault (flagField debugCode).schema (flagField debugCode).override none none []
        (onlySet "ACME_DEBUG" "t") =
        (operator.value (reader.machine (onlySet "ACME_DEBUG" "t"))
          (debugCode.terms "get_env_bool")).json? := by
  obtain ⟨-, -, htext, -, hagrees⟩ :=
    default_agrees_iff (defaultOf_flagField debugCode) (by decide) [] (onlySet "ACME_DEBUG" "t")
  refine ⟨htext, hagrees.mpr ⟨?_, fun _ hliteral => by cases hliteral⟩⟩
  rintro name hname raw hraw
  obtain rfl : name = "ACME_DEBUG" := List.mem_singleton.mp hname
  obtain rfl : "t" = raw := Option.some.inj hraw
  exact ⟨rfl, fun hfalse => absurd hfalse.1 (by decide)⟩

/-- A variable that is set to false is lost beside a true literal. -/
theorem PythonLibrary.debugDefault_differs :
    DefaultOf (flagProperty debugCode) (flagField debugCode) (flagOverride debugCode) debugCode ∧
      defaultText? (flagProperty debugCode) = some "(utilities.get_env_bool('ACME_DEBUG') or True)" ∧
      (operator.value (reader.machine (onlySet "ACME_DEBUG" "0")) (debugCode.terms "get_env_bool")).json? =
        some (.bool true) ∧
      resolveDefault (flagField debugCode).schema (flagField debugCode).override none none []
        (onlySet "ACME_DEBUG" "0") =
        some (.bool false) :=
  ⟨defaultOf_flagField debugCode, rfl, rfl, rfl⟩

namespace Defaults

/-- How the helpers of a language test whether a variable is set. -/
def guardOf : Language → Guard
  | .nodejs => .truthy
  | _ => .present

def defaultValue (env : Environment) (c : DefaultCode) : Language → Value
  | .nodejs => TypeScriptLibrary.operator.value (TypeScriptLibrary.reader.machine env)
      (c.terms TypeScriptLibrary.reader.truth.name)
  | .python =>
    PythonLibrary.operator.value (PythonLibrary.reader.machine env) (c.terms PythonLibrary.reader.truth.name)
  | .dotnet =>
    CSharpLibrary.operator.value (CSharpLibrary.reader.machine env) (c.terms CSharpLibrary.reader.truth.name)
  | .go => (GoLibrary.reader.machine env).run [GoLibrary.fillStatement c]
  | .schema => .nothing

structure HelpersWritten : Prop where
  typeScript : TypeScriptLibrary.Utilities.getEnv =
    TypeScriptLibrary.dialect.steps TypeScriptLibrary.reader.search ∧
    TypeScriptLibrary.Utilities.getEnvBoolean = TypeScriptLibrary.dialect.steps TypeScriptLibrary.reader.truth
  python : PythonLibrary.Utilities.getEnv = PythonLibrary.dialect.steps PythonLibrary.reader.search ∧
    PythonLibrary.Utilities.getEnvBool = PythonLibrary.dialect.steps PythonLibrary.reader.truth
  cSharp : CSharpLibrary.Utilities.getEnv = CSharpLibrary.dialect.steps CSharpLibrary.reader.search ∧
    CSharpLibrary.Utilities.getEnvBoolean = CSharpLibrary.dialect.steps CSharpLibrary.reader.truth ∧
    CSharpLibrary.Utilities.truthTexts =
      lines [CSharpLibrary.declaration trueList, CSharpLibrary.declaration falseList]
  go : GoLibrary.Utilities.getEnv.steps = GoLibrary.dialect.steps GoLibrary.reader.search ∧
    (GoLibrary.Utilities.reading "getEnvBool" "bool" "b" "ParseBool(value)" "false").steps =
      GoLibrary.dialect.steps GoLibrary.reader.truth

/-- The default of a property without a literal is written as these programs. -/
structure DefaultWritten (p : Property) (c : DefaultCode) : Prop where
  typeScript : TypeScriptLibrary.defaultText? p = TypeScriptLibrary.operator.text? TypeScriptLibrary.dialect
    (c.terms TypeScriptLibrary.reader.truth.name)
  python : PythonLibrary.defaultText? p = PythonLibrary.operator.text? PythonLibrary.dialect
    (c.terms PythonLibrary.reader.truth.name)
  cSharp : CSharpLibrary.defaultText? p = CSharpLibrary.operator.text? CSharpLibrary.dialect
    (c.terms CSharpLibrary.reader.truth.name)
  go : GoLibrary.ResourceFile.fillDefault p = if c.names.isEmpty then [] else
    GoLibrary.whenever ("args." ++ GoLibrary.fieldName p ++ " == nil")
      ((GoLibrary.filling ("args." ++ GoLibrary.fieldName p) "Bool").statement .bool
        (GoLibrary.fillStatement c))

theorem helpersWritten : HelpersWritten where
  typeScript := ⟨TypeScriptLibrary.steps_reader.1.symm, TypeScriptLibrary.steps_reader.2.symm⟩
  python := ⟨PythonLibrary.steps_reader.1.symm, PythonLibrary.steps_reader.2.symm⟩
  cSharp := ⟨CSharpLibrary.steps_reader.1.symm, CSharpLibrary.steps_reader.2.1.symm,
    CSharpLibrary.steps_reader.2.2.symm⟩
  go := ⟨GoLibrary.steps_reader.1.symm, GoLibrary.steps_reader.2.symm⟩

theorem DefaultOf.written (h : DefaultOf p f d c) (hliteral : c.literal = none) : DefaultWritten p c where
  typeScript := TypeScriptLibrary.defaultText?_eq h
  python := PythonLibrary.defaultText?_eq h
  cSharp := CSharpLibrary.defaultText?_eq h
  go := GoLibrary.fillDefault_eq h hliteral

/-- Without a literal every language gives the truth value of the first variable that its helpers
take for set. -/
theorem defaultValue_eq (env : Environment) (hliteral : c.literal = none) {l : Language} (hl : l ≠ .schema) :
    defaultValue env c l = .ofBool? (found? (guardOf l) env c.envNames) := by
  cases l with
  | nodejs =>
    refine (Operator.value_of_present TypeScriptLibrary.readsFirst_reader env c rfl).trans ?_
    rw [hliteral, Option.or_none]
    rfl
  | python =>
    refine (Operator.value_of_truthy PythonLibrary.readsFirst_reader env c rfl).trans ?_
    rw [hliteral, trueOr_none]
    rfl
  | dotnet =>
    refine (Operator.value_of_present CSharpLibrary.readsFirst_reader env c rfl).trans ?_
    rw [hliteral, Option.or_none]
    rfl
  | go => exact run_fillStatement env c
  | schema => exact absurd rfl hl

/-- When a library and the provider find the same value in variables: the first variable that is set
for the library means a truth value, or none has a value and nothing stands behind them. -/
def VariablesAgree (g : Guard) (f : FieldSchema) (d : DefaultOverride) (names : List String)
    (props : Properties) (env : Environment) : Prop :=
  (f.kind = .scalar .bool ∧ ∃ raw, firstSet? g env names = some raw ∧ (truthOf? raw).isSome = true) ∨
    ((∀ name ∈ names, (env name).bind (envValue? f.kind) = none) ∧ behind? f d props = none)

theorem isSome_found?_iff {g : Guard} {env : Environment} {names : List String} :
    (found? g env names).isSome = true ↔
      ∃ raw, firstSet? g env names = some raw ∧ (truthOf? raw).isSome = true := by
  rw [found?]
  cases firstSet? g env names <;> simp

/-- The provider takes the truth value of the first variable whose text means one, whatever the
variables before it hold. What a library of any language writes for the same default comes to this
exactly if the first variable that is set means a truth value, or if none does and nothing stands
behind them. -/
theorem variables_agree_iff (h : DefaultOf p f d c) (hliteral : c.literal = none) (props : Properties)
    (env : Environment) :
    HelpersWritten ∧ DefaultWritten p c ∧
      (f.schema.kind = .scalar .bool → resolveDefault f.schema f.override none none props env =
        ((firstTruth? env c.envNames).map Json.bool).or (behind? f.schema d props)) ∧
      ∀ l, l ≠ .schema → defaultValue env c l = .ofBool? (found? (guardOf l) env c.envNames) ∧
        (resolveDefault f.schema f.override none none props env = (defaultValue env c l).json? ↔
          VariablesAgree (guardOf l) f.schema d c.envNames props env) := by
  refine ⟨helpersWritten, h.written hliteral, fun hkind => ?_,
    fun l hl => ⟨defaultValue_eq env hliteral hl, ?_⟩⟩
  · rw [h.resolveDefault_eq, hkind, firstEnvValue?_bool, hliteral]
    rfl
  · rw [defaultValue_eq env hliteral hl, h.found?_agrees_iff hliteral, isSome_found?_iff, VariablesAgree]

/-- Two variables without a literal. -/
def pairCode : DefaultCode := ⟨[⟨"FIRST", rfl⟩, ⟨"SECOND", rfl⟩], none⟩

def pairSet (first second : String) : Environment := fun name =>
  if name = "FIRST" then some first else if name = "SECOND" then some second else none

/-- A first variable that means something is taken by all. -/
theorem pairVariables_agree :
    resolveDefault (flagField pairCode).schema (flagField pairCode).override none none []
      (pairSet "F" "maybe") =
        some (.bool false) ∧
      (∀ l, l ≠ .schema → (defaultValue (pairSet "F" "maybe") pairCode l).json? = some (.bool false)) := by
  have hfalse : resolveDefault (flagField pairCode).schema (flagField pairCode).override none none []
      (pairSet "F" "maybe") = some (.bool false) := rfl
  obtain ⟨-, -, -, hagrees⟩ := variables_agree_iff (defaultOf_flagField pairCode) rfl [] (pairSet "F" "maybe")
  refine ⟨hfalse, fun l hl => ?_⟩
  rw [← (hagrees l hl).2.mpr (.inl ⟨rfl, "F", by cases l <;> rfl, rfl⟩), hfalse]

/-- No library asks the second variable if the first one means nothing. -/
theorem pairVariables_differ :
    DefaultOf (flagProperty pairCode) (flagField pairCode) (flagOverride pairCode) pairCode ∧
      resolveDefault (flagField pairCode).schema (flagField pairCode).override none none []
        (pairSet "maybe" "T") =
        some (.bool true) ∧
      ∀ l, (defaultValue (pairSet "maybe" "T") pairCode l).json? = none := by
  refine ⟨defaultOf_flagField pairCode, rfl, fun l => ?_⟩
  cases l <;> rfl

end Defaults

end ProviderSdk
