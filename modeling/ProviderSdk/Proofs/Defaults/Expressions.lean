import ProviderSdk.CSharpLibrary.SourceFile
import ProviderSdk.Compile.Resolution
import ProviderSdk.GoLibrary.MemberFiles
import ProviderSdk.Proofs.Defaults.Helpers
import ProviderSdk.Proofs.Results
import ProviderSdk.PythonLibrary.SourceFile
import ProviderSdk.TypeScriptLibrary.Reference

/-!
# Defaults of truth values

What a library writes for the default of a truth value, what that comes to with the helpers of the
library, and what the provider itself takes for the default of the same field.
-/

namespace ProviderSdk.Defaults

open Code

/-- The default of a truth value: the variables that are looked up, and a literal in reserve. -/
structure DefaultCode where
  names : List PlainText
  literal : Option Bool

namespace DefaultCode

def envNames (c : DefaultCode) : List String := c.names.map PlainText.text

/-- What may stand for the value, in the order in which it is tried. -/
def terms (c : DefaultCode) (helper : String) : List Term :=
  (if c.names.isEmpty then [] else [.call helper (.given c.names)]) ++ (c.literal.map Term.bool).toList

end DefaultCode

/-- How a language chooses between what may stand for a value. -/
structure Operator where
  word : String
  guard : Guard
  around : String → String := id

namespace Operator

/-- The expression that a language writes, if there is something to choose from. -/
def text? (o : Operator) (d : Dialect) (terms : List Term) : Option String :=
  if terms.isEmpty then none else some (o.around (o.word.intercalate (terms.map d.term)))

def value (o : Operator) (m : Machine) (terms : List Term) : Value := o.guard.choose (terms.map m.value)

end Operator

/-- A property of truth values comes from a field with an override whose default has variables and a
literal. -/
structure DefaultOf (p : Property) (f : PairedField) (d : DefaultOverride) (c : DefaultCode) : Prop where
  resolved : ∃ package owner position page, resolveProperty package owner position page f = .ok p
  type : p.type = .bool
  override : f.override.bind (fun o => o.default) = some d
  envNames : d.envVars = c.envNames
  literal : d.value = c.literal.map Json.bool

section

variable {p : Property} {f : PairedField} {d : DefaultOverride} {c : DefaultCode}

theorem literalOf?_bool (kind : ValueKind) (literal : Option Bool) :
    (literal.map Json.bool).bind (fun v => literalOf? (coerceNumber kind v)) = literal.map Literal.bool := by
  cases literal <;> rfl

theorem DefaultOf.default_eq (h : DefaultOf p f d c) :
    p.default = some ⟨c.literal.map Literal.bool, c.envNames, d.compute.isSome⟩ := by
  obtain ⟨package, owner, position, page, hresolved⟩ := h.resolved
  obtain ⟨type, -, hp⟩ := bind_eq_ok.mp hresolved
  cases hp
  change (f.override.bind (fun o => o.default)).map (fun d => d.toDefaultValue f.schema.kind) = _
  rw [h.override, Option.map_some, DefaultOverride.toDefaultValue, h.literal, literalOf?_bool, h.envNames]

theorem DefaultOf.defaultExpression?_eq (h : DefaultOf p f d c) (helper : String) :
    p.defaultExpression? = if (c.terms helper).isEmpty then none
      else some ⟨.bool, c.envNames, c.literal.map Literal.bool⟩ := by
  rw [Property.defaultExpression?, h.default_eq, h.type]
  obtain ⟨names, literal⟩ := c
  cases names <;> cases literal <;> rfl

theorem lookUp_eq {style : DefaultStyle} {dialect : Dialect} {helper : String} (c : DefaultCode)
    (hhelper : style.helper .bool = dialect.qualifier ++ helper)
    (hquoted : ∀ s : PlainText, style.variableName s.text = dialect.quoted s.text)
    (literal : Option Literal) :
    style.lookUp ⟨.bool, c.envNames, literal⟩ = dialect.term (.call helper (.given c.names)) := by
  have hnames : c.envNames.map style.variableName = c.names.map (fun s => dialect.quoted s.text) := by
    rw [DefaultCode.envNames, List.map_map]
    exact List.map_congr_left (fun s _ => hquoted s)
  rw [DefaultStyle.lookUp, Dialect.term, Dialect.call, hnames, hhelper]

theorem alternatives_eq {style : DefaultStyle} {dialect : Dialect} {helper : String} (c : DefaultCode)
    (hhelper : style.helper .bool = dialect.qualifier ++ helper)
    (hquoted : ∀ s : PlainText, style.variableName s.text = dialect.quoted s.text)
    (htrue : style.trueWord = dialect.trueWord) (hfalse : style.falseWord = dialect.falseWord) :
    style.alternatives ⟨.bool, c.envNames, c.literal.map Literal.bool⟩ =
      (c.terms helper).map dialect.term := by
  have hliteral (b : Bool) : style.literal (.bool b) = dialect.term (.bool b) := by
    cases b
    · exact hfalse
    · exact htrue
  rw [DefaultStyle.alternatives, DefaultCode.terms, List.map_append, lookUp_eq c hhelper hquoted]
  obtain ⟨names, literal⟩ := c
  cases names <;> cases literal <;> simp [hliteral, DefaultCode.envNames]

theorem escaped_of_standsForItself {c : Char} (h : standsForItself c = true) : Json.escaped c = [c] := by
  obtain ⟨hrange, hmarks⟩ := Bool.and_eq_true_iff.mp h
  have hlarge : 32 ≤ c.toNat := of_decide_eq_true hrange
  have hquote : c ≠ '"' := by
    rintro rfl
    cases hmarks
  have hbackslash : c ≠ '\\' := by
    rintro rfl
    cases hmarks
  rw [Json.escaped, if_neg hquote, if_neg hbackslash, if_neg (by omega), if_neg (by omega), if_neg (by omega),
    if_neg (by omega), if_neg (by omega), if_neg (by omega)]

theorem flatMap_escaped_of_plain {cs : List Char} (h : cs.all standsForItself = true) :
    cs.flatMap Json.escaped = cs := by
  induction cs with
  | nil => rfl
  | cons c rest ih =>
    obtain ⟨hc, hrest⟩ := Bool.and_eq_true_iff.mp h
    rw [List.flatMap_cons, escaped_of_standsForItself hc, ih hrest]
    rfl

/-- Texts that stand for themselves are written between double quotes as they are. -/
theorem quoted_plain (s : PlainText) : Json.quoted s.text = doubleQuoted s.text := by
  apply String.toList_injective
  rw [Json.quoted, Json.quotedChars, String.toList_ofList, flatMap_escaped_of_plain s.plain, doubleQuoted,
    String.toList_append, String.toList_append]
  rfl

/-- How a language with operators writes the default. -/
theorem DefaultOf.text?_eq (h : DefaultOf p f d c) {style : DefaultStyle} {dialect : Dialect}
    {helper : String} (hhelper : style.helper .bool = dialect.qualifier ++ helper)
    (hquoted : ∀ s : PlainText, style.variableName s.text = dialect.quoted s.text)
    (htrue : style.trueWord = dialect.trueWord) (hfalse : style.falseWord = dialect.falseWord)
    (o : Operator) :
    p.defaultExpression?.map (fun e => o.around (o.word.intercalate (style.alternatives e))) =
      o.text? dialect (c.terms helper) := by
  rw [h.defaultExpression?_eq helper, Operator.text?, ← alternatives_eq c hhelper hquoted htrue hfalse]
  split <;> rfl

end

end ProviderSdk.Defaults

namespace ProviderSdk

open Code Defaults

variable {p : Property} {f : PairedField} {d : DefaultOverride} {c : DefaultCode}

/-- The operator of Python: the first that counts as true, and else the last. -/
def PythonLibrary.operator : Operator where
  word := " or "
  guard := .truthy
  around s := "(" ++ s ++ ")"

theorem PythonLibrary.defaultText?_eq (h : DefaultOf p f d c) :
    defaultText? p = operator.text? dialect (c.terms reader.truth.name) :=
  h.text?_eq rfl (fun _ => rfl) rfl rfl operator

/-- The operator of TypeScript: the first that is there, and else the last. -/
def TypeScriptLibrary.operator : Operator where
  word := " ?? "
  guard := .present

theorem TypeScriptLibrary.defaultText?_eq (h : DefaultOf p f d c) :
    defaultText? p = operator.text? dialect (c.terms reader.truth.name) :=
  h.text?_eq rfl (fun _ => rfl) rfl rfl operator

/-- The operator of C#: the first that is there, and else the last. -/
def CSharpLibrary.operator : Operator where
  word := " ?? "
  guard := .present

theorem CSharpLibrary.defaultText?_eq (h : DefaultOf p f d c) :
    defaultText? p = operator.text? dialect (c.terms reader.truth.name) :=
  h.text?_eq rfl quoted_plain rfl rfl operator

/-- Go with values that are put into an argument instead of being given. -/
def GoLibrary.filling (target word : String) : Dialect :=
  { GoLibrary.dialect with give := fun _ _ text => line s!"{target} = pulumi.{word}Ptr({text})" }

/-- Go looks the variables of a default without a literal up in a statement. -/
def GoLibrary.fillStatement (c : DefaultCode) : Statement :=
  .found .present "d" (.call GoLibrary.reader.truth.name (.given c.names)) [.give (.name "d")]

theorem GoLibrary.fillDefault_eq (h : DefaultOf p f d c) (hliteral : c.literal = none) :
    ResourceFile.fillDefault p = if c.names.isEmpty then [] else
      whenever ("args." ++ fieldName p ++ " == nil")
        ((filling ("args." ++ fieldName p) "Bool").statement .bool (fillStatement c)) := by
  have hexpression := h.defaultExpression?_eq reader.truth.name
  have hlookUp := @lookUp_eq defaultStyle dialect reader.truth.name c rfl quoted_plain none
  have hprimitive : primitive? p.type = some "Bool" := by rw [h.type]; rfl
  obtain ⟨names, literal⟩ := c
  obtain rfl : literal = none := hliteral
  cases names with
  | nil =>
    rw [ResourceFile.fillDefault, hexpression]
    rfl
  | cons first rest =>
    have hexpression : p.defaultExpression? =
        some ⟨.bool, DefaultCode.envNames ⟨first :: rest, none⟩, none⟩ := hexpression
    rw [ResourceFile.fillDefault, hexpression, hprimitive]
    dsimp only [foundInEnvironment]
    rw [hlookUp]
    rfl

end ProviderSdk

namespace ProviderSdk.Defaults

/-- The truth value of the first variable that passes a test, if its text means one. -/
def found? (g : Guard) (env : Environment) (names : List String) : Option Bool :=
  (firstSet? g env names).bind truthOf?

def trueOr (found literal : Option Bool) : Option Bool :=
  if found = some true then some true else literal.or found

theorem trueOr_none (found : Option Bool) : trueOr found none = found := by
  rw [trueOr]
  split
  · next htrue => exact htrue.symm
  · rfl

section

variable {r : Reader} {g : Guard}

theorem value_lookUp (hr : r.ReadsFirst g) (env : Environment) (names : List PlainText) :
    (r.machine env).value (.call r.truth.name (.given names)) =
      .ofBool? (found? g env (names.map PlainText.text)) := hr env _

/-- The alternatives are the variable's value and the literal, as far as there are such. -/
theorem values_terms (hr : r.ReadsFirst g) (env : Environment) (c : DefaultCode) :
    (c.terms r.truth.name).map (r.machine env).value =
      (if c.names.isEmpty then [] else [.ofBool? (found? g env c.envNames)]) ++
        (c.literal.map Value.bool).toList := by
  rw [DefaultCode.envNames, ← value_lookUp hr, DefaultCode.terms, List.map_append]
  obtain ⟨names, literal⟩ := c
  cases names <;> cases literal <;> rfl

/-- The first alternative that is there is the variable's value if it has one, and else the literal. -/
theorem Operator.value_of_present (hr : r.ReadsFirst g) (env : Environment) (c : DefaultCode) {o : Operator}
    (ho : o.guard = .present) :
    o.value (r.machine env) (c.terms r.truth.name) = .ofBool? ((found? g env c.envNames).or c.literal) := by
  rw [Operator.value, ho, values_terms hr]
  obtain ⟨names, literal⟩ := c
  cases names with
  | nil => cases literal <;> rfl
  | cons first rest => cases found? g env _ <;> cases literal <;> rfl

/-- The first alternative that counts as true is the variable's value only if that is true; else it
is the literal, if there is one. -/
theorem Operator.value_of_truthy (hr : r.ReadsFirst g) (env : Environment) (c : DefaultCode) {o : Operator}
    (ho : o.guard = .truthy) :
    o.value (r.machine env) (c.terms r.truth.name) =
      .ofBool? (trueOr (found? g env c.envNames) c.literal) := by
  rw [Operator.value, ho, values_terms hr]
  obtain ⟨names, literal⟩ := c
  cases names with
  | nil => cases literal <;> rfl
  | cons first rest =>
    cases found? g env _ with
    | none => cases literal <;> rfl
    | some value => cases value <;> cases literal <;> rfl

end

/-- The value that Go puts into an argument is that of the variables. -/
theorem run_fillStatement (env : Environment) (c : DefaultCode) :
    (GoLibrary.reader.machine env).run [GoLibrary.fillStatement c] =
      .ofBool? (found? .present env c.envNames) := by
  have hlookUp := value_lookUp GoLibrary.readsFirst_reader env c.names
  have hrun : (GoLibrary.reader.machine env).run [GoLibrary.fillStatement c] =
      (if Guard.present.passes ((GoLibrary.reader.machine env).value
        (.call GoLibrary.reader.truth.name (.given c.names)))
        then some ((GoLibrary.reader.machine env).value (.call GoLibrary.reader.truth.name (.given c.names)))
        else none).getD .nothing := by
    simp only [Machine.run, GoLibrary.fillStatement, runAll, Statement.run, Option.or_none, Term.value,
      Function.update_self]
    rfl
  rw [hrun, hlookUp, DefaultCode.envNames]
  cases found? .present env (c.names.map PlainText.text) <;> rfl

/-- What stands behind the variables and the literal of a default: what is computed, and the default
of the schema. -/
def behind? (f : FieldSchema) (d : DefaultOverride) (props : Properties) : Option Json :=
  (d.compute.bind (fun compute => compute props)).or f.schemaDefault?

theorem envValue?_bool (raw : String) : envValue? (.scalar .bool) raw = (truthOf? raw).map Json.bool := by
  rw [truthOf?]
  change (if trueTexts.contains raw then _ else if falseTexts.contains raw then _ else _) = _
  split
  · rfl
  · split <;> rfl

variable {p : Property} {f : PairedField} {d : DefaultOverride} {c : DefaultCode}

/-- The variables come first, then the literal, and then what stands behind them. -/
theorem DefaultOf.resolveDefault_eq (h : DefaultOf p f d c) (props : Properties) (env : Environment) :
    resolveDefault f.schema f.override none none props env =
      (firstEnvValue? f.schema.kind env c.envNames).or
        ((c.literal.map Json.bool).or (behind? f.schema d props)) := by
  have hliteral : (c.literal.map Json.bool).map (coerceNumber f.schema.kind) = c.literal.map Json.bool := by
    cases c.literal <;> rfl
  change ((f.override.bind (fun o => o.default)).bind (fun d => d.value? f.schema.kind props env)).or _ = _
  rw [h.override, Option.bind_some, DefaultOverride.value?, h.literal, h.envNames, hliteral,
    behind?, Option.or_assoc, Option.or_assoc]

/-- A property of truth values comes from a truth value, or from a collection that stands for its
only element. -/
theorem kind_of_typeOf {package owner : String} {position : Position} (f : PairedField)
    (h : typeOf package owner position f = .ok .bool) :
    f.schema.kind = .scalar .bool ∨ ∃ kind, f.schema.kind = .collection kind := by
  obtain ⟨key, schema, override, element⟩ := f
  rw [typeOf] at h
  split at h
  · next type hoverridden =>
    rw [overriddenType?] at hoverridden
    split at hoverridden
    · cases hoverridden
      obtain ⟨token, -, h⟩ := bind_eq_ok.mp h
      cases position with
      | input =>
        obtain ⟨altTypes, -, h⟩ := bind_eq_ok.mp h
        cases h
      | output => cases h
    · split at hoverridden
      · cases hoverridden
        cases h
      · cases hoverridden
  · split at h
    · next kind hkind =>
      cases kind with
      | bool => exact .inl hkind
      | _ => cases h
    · next kind hkind => exact .inr ⟨kind, hkind⟩

theorem DefaultOf.kind (h : DefaultOf p f d c) :
    f.schema.kind = .scalar .bool ∨ ∃ kind, f.schema.kind = .collection kind := by
  obtain ⟨package, owner, position, page, hresolved⟩ := h.resolved
  obtain ⟨type, htype, hp⟩ := bind_eq_ok.mp hresolved
  cases hp
  exact kind_of_typeOf f (htype.trans (congrArg Except.ok h.type))

end ProviderSdk.Defaults
