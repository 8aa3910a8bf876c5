import ProviderSdk.Package.Member
import ProviderSdk.Proofs.TypeTokens

/-!
# What can be printed

Descriptions and positions of properties are written nowhere, so that a part of a package is
compared with another one without them, at whatever depth. What is written can be told apart as far
as tokens hold no separators, which stand between their parts, and numbers are finite.
-/

namespace ProviderSdk

/-- Induction over the nesting of types. The properties of an object type are taken all at once. -/
@[elab_as_elim, induction_eliminator]
theorem TypeRef.nestedInduction {motive : TypeRef → Prop} (bool : motive .bool) (int : motive .int)
    (float : motive .float) (string : motive .string)
    (array : ∀ element, motive element → motive (.array element))
    (map : ∀ element, motive element → motive (.map element))
    (object : ∀ type : ObjectType, (∀ p ∈ type.properties, motive p.type) → motive (.object type))
    (custom : ∀ type, motive (.custom type)) (asset : ∀ kind, motive (.asset kind)) (t : TypeRef) :
    motive t := by
  apply @TypeRef.rec motive (fun o => ∀ p ∈ o.properties, motive p.type) (fun p => motive p.type)
    (fun ps => ∀ p ∈ ps, motive p.type)
  · exact bool
  · exact int
  · exact float
  · exact string
  · exact array
  · exact map
  · exact object
  · exact custom
  · exact asset
  · exact fun _ _ h => h
  · exact fun _ _ _ _ _ _ _ _ _ _ h => h
  · intro p hp
    cases hp
  · exact fun p ps hp hps => List.forall_mem_cons.mpr ⟨hp, hps⟩

mutual

/-- A type without what is not part of its JSON form. -/
def TypeRef.bare : TypeRef → TypeRef
  | .array element => .array element.bare
  | .map element => .map element.bare
  | .object type => .object type.bare
  | type => type
  termination_by structural t => t

/-- An object type without what is not part of its JSON form. -/
def ObjectType.bare : ObjectType → ObjectType
  | ⟨name, ps⟩ => ⟨name, bareProperties ps⟩
  termination_by structural t => t

def bareProperties : List Property → List Property
  | [] => []
  | p :: rest => p.bare :: bareProperties rest
  termination_by structural ps => ps

/-- A property without its description and its position, and so at every depth. -/
def Property.bare : Property → Property
  | ⟨rawName, name, type, optional, doc, _, default, deprecation, secret, _⟩ =>
    ⟨rawName, name, type.bare, optional, doc, "", default, deprecation, secret, .input⟩
  termination_by structural p => p

end

theorem bareProperties_eq (ps : List Property) : bareProperties ps = ps.map Property.bare := by
  induction ps with
  | nil => rfl
  | cons p rest ih => rw [bareProperties, ih, List.map_cons]

theorem ObjectType.bare_eq (type : ObjectType) :
    type.bare = ⟨type.name, type.properties.map Property.bare⟩ := by
  cases type
  rw [bare, bareProperties_eq]

def Resource.bare (r : Resource) : Resource :=
  { r with inputs := r.inputs.map Property.bare, outputs := r.outputs.map Property.bare }

def DataSource.bare (f : DataSource) : DataSource :=
  { f with arguments := f.arguments.map Property.bare, results := f.results.map Property.bare }

def Literal.Finite : Literal → Prop
  | .float x => x.isFinite = true
  | _ => True

def DefaultValue.Finite (d : DefaultValue) : Prop := ∀ l, d.literal = some l → l.Finite

mutual

/-- The tokens in a type are separated and the numbers finite, at every depth. -/
def TypeRef.Printable : TypeRef → Prop
  | .array element => element.Printable
  | .map element => element.Printable
  | .object type => type.Printable
  | .custom type => type.token.Separated ∧ ∀ t ∈ type.altTypes, t.Separated
  | _ => True
  termination_by structural t => t

/-- The tokens in an object type are separated and the numbers finite, at every depth. -/
def ObjectType.Printable : ObjectType → Prop
  | ⟨_, ps⟩ => printableProperties ps
  termination_by structural t => t

def printableProperties : List Property → Prop
  | [] => True
  | p :: rest => p.Printable ∧ printableProperties rest
  termination_by structural ps => ps

/-- The tokens in a property are separated and the numbers finite, at every depth. -/
def Property.Printable : Property → Prop
  | ⟨_, _, type, _, _, _, default, _, _, _⟩ => type.Printable ∧ ∀ d, default = some d → d.Finite
  termination_by structural p => p

end

theorem printableProperties_iff {ps : List Property} : printableProperties ps ↔ ∀ p ∈ ps, p.Printable := by
  induction ps with
  | nil => simp [printableProperties]
  | cons p rest ih => rw [printableProperties, ih, List.forall_mem_cons]

theorem Property.printable_iff {p : Property} :
    p.Printable ↔ p.type.Printable ∧ ∀ d, p.default = some d → d.Finite := by
  cases p
  rfl

theorem TypeRef.Printable.properties {type : ObjectType} (h : (TypeRef.object type).Printable) :
    ∀ p ∈ type.properties, p.Printable := by
  cases type
  exact printableProperties_iff.mp h

/-- The tokens in a member are separated and the numbers finite, at every depth. -/
def Member.Printable : Member → Prop
  | .resource r => r.token.Separated ∧ ∀ p ∈ r.inputs ++ r.outputs, p.Printable
  | .dataSource f => f.token.Separated ∧ ∀ p ∈ f.arguments ++ f.results, p.Printable
  | .variable v => v.Printable
  | .overlay _ => True

end ProviderSdk
