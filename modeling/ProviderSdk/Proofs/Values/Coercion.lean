import ProviderSdk.Values.Default

/-!
# Coerced values

A value that has been brought to a kind stays as it is when it is brought to that kind again, and
the values of environment variables, literals and schema defaults are all of their kind already.
-/

namespace ProviderSdk

open Decimal (Binary64)

theorem Decimal.Binary64.clampedInt_mem (x : Binary64) {lo hi : Int} (hlo : lo ≤ 0) (hhi : 0 ≤ hi) :
    lo ≤ x.clampedInt lo hi ∧ x.clampedInt lo hi ≤ hi := by
  unfold Binary64.clampedInt
  split
  · exact ⟨hlo, hhi⟩
  · split
    · split <;> omega
    · omega

theorem Decimal.parseInt?_mem {lo hi n : Int} {text : String} (h : parseInt? lo hi text = some n) :
    lo ≤ n ∧ n ≤ hi := by
  simp only [parseInt?] at h
  split at h
  · cases h
  · obtain ⟨hn, heq⟩ := Option.ite_none_right_eq_some.mp h
    exact Option.some.inj heq ▸ hn

/-- The number fits the kind: floating point for floats, and else an integer of 64 bits. -/
def Number.Fits (kind : ValueKind) : Number → Prop
  | .int n => kind.isFloat = false ∧ int64Min ≤ n ∧ n ≤ int64Max
  | .float _ => kind.isFloat = true

private theorem fits_clampedInt {kind : ValueKind} (h : kind.isFloat = false) (x : Binary64) :
    (Number.int (x.clampedInt int64Min int64Max)).Fits kind :=
  ⟨h, x.clampedInt_mem (by decide) (by decide)⟩

theorem Number.coerce_fits (kind : ValueKind) (n : Number) : (n.coerce kind).Fits kind := by
  cases hk : kind.isFloat with
  | true => cases n <;> simp [Number.coerce, Number.Fits, hk]
  | false =>
    cases n with
    | float x => simpa [Number.coerce, hk] using fits_clampedInt hk x
    | int n =>
      by_cases hn : int64Min ≤ n ∧ n ≤ int64Max
      · have hfits : (Number.int n).Fits kind := ⟨hk, hn⟩
        simpa [Number.coerce, hk, hn] using hfits
      · simpa [Number.coerce, hk, hn] using fits_clampedInt hk (Binary64.ofInt n)

theorem Number.Fits.coerce_eq {kind : ValueKind} {n : Number} (h : n.Fits kind) : n.coerce kind = n := by
  cases n with
  | int n =>
    obtain ⟨hk, hn⟩ := h
    simp [Number.coerce, hk, hn]
  | float x =>
    have hk : kind.isFloat = true := h
    simp [Number.coerce, hk]

def Json.OfKind (kind : ValueKind) (value : Json) : Prop := coerceNumber kind value = value

theorem coerceNumber_ofKind (kind : ValueKind) (value : Json) : (coerceNumber kind value).OfKind kind := by
  cases value with
  | num n => simp [Json.OfKind, coerceNumber, (n.coerce_fits kind).coerce_eq]
  | _ => rfl

@[simp] theorem coerceNumber_coerceNumber (kind : ValueKind) (value : Json) :
    coerceNumber kind (coerceNumber kind value) = coerceNumber kind value :=
  coerceNumber_ofKind kind value

@[simp] theorem coerceNumber_arr (kind : ValueKind) (items : List Json) :
    coerceNumber kind (.arr items) = .arr items := rfl

@[simp] theorem coerceNumber_obj (kind : ValueKind) (members : List (String × Json)) :
    coerceNumber kind (.obj members) = .obj members := rfl

theorem envValue?_ofKind {kind : ValueKind} {raw : String} {value : Json}
    (h : envValue? kind raw = some value) :
    value.OfKind kind := by
  unfold envValue? at h
  split at h
  · split at h
    · cases h
      rfl
    · split at h
      · cases h
        rfl
      · cases h
  · obtain ⟨n, hn, rfl⟩ := Option.map_eq_some_iff.mp h
    have hfits : (Number.int n).Fits (.scalar .int) := ⟨rfl, Decimal.parseInt?_mem hn⟩
    simp [Json.OfKind, Json.int, coerceNumber, hfits.coerce_eq]
  · split at h
    · split at h
      · cases h
        rfl
      · cases h
    · cases h
  · cases h
    rfl

theorem firstEnvValue?_ofKind {kind : ValueKind} {env : Environment} {names : List String} {value : Json}
    (h : firstEnvValue? kind env names = some value) : value.OfKind kind := by
  obtain ⟨name, _, hname⟩ := List.exists_of_findSome?_eq_some h
  obtain ⟨raw, _, hraw⟩ := Option.bind_eq_some_iff.mp hname
  exact envValue?_ofKind hraw

theorem FieldSchema.schemaDefault?_ofKind {f : FieldSchema} {value : Json}
    (h : f.schemaDefault? = some value) :
    value.OfKind f.kind := by
  unfold FieldSchema.schemaDefault? at h
  split at h
  · cases h
  · obtain ⟨v, _, rfl⟩ := Option.map_eq_some_iff.mp h
    exact coerceNumber_ofKind f.kind v

end ProviderSdk
