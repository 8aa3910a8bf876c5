import Mathlib.Data.List.Nodup
import ProviderSdk.Proofs.Schema.Nesting
import ProviderSdk.Proofs.Values.Coercion

/-!
# The two translations of an object

Both translations of an object treat its members one by one. What the provider is given for a field
depends on the value under the field's canonical name alone; what users are given under a canonical
name depends on the value under the field's key alone, as long as names are injective.
-/

namespace ProviderSdk

variable {env : Environment} {fields : ObjectSchema} {overrides : OverrideLookup}

def providerMember? (env : Environment) (overrides : OverrideLookup) (olds : Option Properties)
    (news : Properties) (key : String) (f : FieldSchema) : Option Json :=
  if f.isRemoved then none
  else
    let name := propertyName key (overrides key)
    let old := olds.bind (fun o => o.lookup name)
    (resolveDefault f (overrides key) old (news.lookup name) news env).map
      (providerValue env f (overrides key) old)

theorem providerMembers_eq (olds : Option Properties) (news : Properties) :
    providerMembers env fields overrides olds news =
      fields.filterMap (fun p => (providerMember? env overrides olds news p.1 p.2).map
        (fun v => (p.1, v))) := by
  induction fields with
  | nil => rfl
  | cons p rest ih =>
    obtain ⟨key, f⟩ := p
    rw [providerMembers, List.filterMap_cons, ih]
    by_cases hr : f.isRemoved = true
    · simp [providerMember?, hr]
    · simp only [providerMember?, hr, Bool.false_eq_true, if_false, Option.map_map]
      cases resolveDefault f (overrides key)
        (olds.bind (fun o => o.lookup (propertyName key (overrides key))))
        (news.lookup (propertyName key (overrides key))) news env <;> rfl

theorem mem_providerMembers {olds : Option Properties} {news : Properties} {key : String} {value : Json} :
    (key, value) ∈ providerMembers env fields overrides olds news ↔
      ∃ f, (key, f) ∈ fields ∧ providerMember? env overrides olds news key f = some value := by
  rw [providerMembers_eq, List.mem_filterMap]
  constructor
  · rintro ⟨⟨k, f⟩, hmem, hp⟩
    obtain ⟨v, hv, heq⟩ := Option.map_eq_some_iff.mp hp
    cases heq
    exact ⟨f, hmem, hv⟩
  · rintro ⟨f, hmem, hv⟩
    exact ⟨(key, f), hmem, by simp [hv]⟩

theorem isRemoved_eq_false_of_providerMember? {olds : Option Properties} {news : Properties} {key : String}
    {f : FieldSchema} {value : Json} (h : providerMember? env overrides olds news key f = some value) :
    f.isRemoved = false := by
  cases hr : f.isRemoved with
  | false => rfl
  | true => simp [providerMember?, hr] at h

theorem keys_providerMembers_sublist (olds : Option Properties) (news : Properties) :
    ((providerMembers env fields overrides olds news).map Prod.fst).Sublist (fields.map Prod.fst) := by
  rw [providerMembers_eq]
  induction fields with
  | nil => exact .slnil
  | cons p rest ih =>
    rw [List.filterMap_cons]
    cases providerMember? env overrides olds news p.1 p.2 with
    | none => exact ih.cons _
    | some v => exact ih.cons_cons _

theorem lookup_providerMembers (hkeys : (fields.map Prod.fst).Nodup) {olds : Option Properties}
    {news : Properties} {key : String} {f : FieldSchema} (hf : (key, f) ∈ fields) :
    (providerMembers env fields overrides olds news).lookup key =
      providerMember? env overrides olds news key f := by
  cases hv : providerMember? env overrides olds news key f with
  | some v =>
    have hnodup := hkeys.sublist (@keys_providerMembers_sublist env fields overrides olds news)
    exact Json.lookup_of_mem hnodup (mem_providerMembers.mpr ⟨f, hf, hv⟩)
  | none =>
    rw [Json.lookup_eq_none_iff_notMem]
    intro hmem
    obtain ⟨⟨k, v⟩, hkv, rfl⟩ := List.mem_map.mp hmem
    obtain ⟨f', hf', hv'⟩ := mem_providerMembers.mp hkv
    have hsame : f = f' := Json.eq_of_mem_of_mem hkeys hf hf'
    subst hsame
    cases hv.symm.trans hv'

/-- Members under keys of fields that are not removed, each key once. -/
structure Properties.RawFor (fields : ObjectSchema) (raw : Properties) : Prop where
  keys : (raw.map Prod.fst).Nodup
  active : ∀ key ∈ raw.map Prod.fst, key ∈ fields.activeKeys

theorem mem_canonicalMembers {raw : Properties} {name : String} {value : Json} :
    (name, value) ∈ canonicalMembers fields overrides raw ↔
      ∃ key v f, (key, v) ∈ raw ∧ fields.lookup key = some f ∧ propertyName key (overrides key) = name ∧
        canonicalValue f (overrides key) v = value := by
  induction raw with
  | nil => simp [canonicalMembers]
  | cons m rest ih =>
    obtain ⟨k, v⟩ := m
    rw [canonicalMembers]
    cases hf : fields.lookup k with
    | none =>
      rw [ih]
      constructor
      · rintro ⟨key, v', f, hmem, h⟩
        exact ⟨key, v', f, List.mem_cons_of_mem _ hmem, h⟩
      · rintro ⟨key, v', f, hmem, hkey, h⟩
        rcases List.mem_cons.mp hmem with heq | hmem
        · cases heq
          cases hf.symm.trans hkey
        · exact ⟨key, v', f, hmem, hkey, h⟩
    | some f =>
      rw [List.mem_cons, ih]
      constructor
      · rintro (heq | ⟨key, v', f', hmem, h⟩)
        · cases heq
          exact ⟨k, v, f, List.mem_cons_self, hf, rfl, rfl⟩
        · exact ⟨key, v', f', List.mem_cons_of_mem _ hmem, h⟩
      · rintro ⟨key, v', f', hmem, hkey, rfl, rfl⟩
        rcases List.mem_cons.mp hmem with heq | hmem
        · cases heq
          cases hf.symm.trans hkey
          exact .inl rfl
        · exact .inr ⟨key, v', f', hmem, hkey, rfl, rfl⟩

theorem lookup_of_mem_activeKeys {key : String} (h : key ∈ fields.activeKeys) :
    ∃ f, fields.lookup key = some f := by
  obtain ⟨f, hf, _⟩ := h
  cases hlookup : fields.lookup key with
  | some f' => exact ⟨f', rfl⟩
  | none =>
    rw [Json.lookup_eq_none_iff_notMem] at hlookup
    exact absurd (List.mem_map.mpr ⟨(key, f), hf, rfl⟩) hlookup

theorem names_canonicalMembers {raw : Properties}
    (hactive : ∀ key ∈ raw.map Prod.fst, key ∈ fields.activeKeys) :
    (canonicalMembers fields overrides raw).map Prod.fst =
      (raw.map Prod.fst).map (fun key => propertyName key (overrides key)) := by
  induction raw with
  | nil => rfl
  | cons m rest ih =>
    obtain ⟨k, v⟩ := m
    obtain ⟨f, hf⟩ := lookup_of_mem_activeKeys (hactive k (by simp))
    have hrest := ih (fun key hkey => hactive key (by simpa using .inr (by simpa using hkey)))
    simp only [canonicalMembers, hf, List.map_cons, hrest]

theorem nodup_names_canonicalMembers {raw : Properties} (hnames : fields.NamesInjective overrides)
    (hraw : raw.RawFor fields) : ((canonicalMembers fields overrides raw).map Prod.fst).Nodup := by
  rw [names_canonicalMembers hraw.active]
  apply List.Nodup.map_on _ hraw.keys
  intro key hkey key' hkey' heq
  exact hnames (hraw.active key hkey) (hraw.active key' hkey') heq

/-- What users are given under the canonical name of a field is what stands under its key. -/
theorem lookup_canonicalMembers {raw : Properties} (hkeys : (fields.map Prod.fst).Nodup)
    (hnames : fields.NamesInjective overrides) (hraw : raw.RawFor fields) {key : String} {f : FieldSchema}
    (hf : (key, f) ∈ fields) (hactive : f.isRemoved = false) :
    (Json.Members.sorted (canonicalMembers fields overrides raw)).lookup (propertyName key (overrides key)) =
      (raw.lookup key).map (canonicalValue f (overrides key)) := by
  have hnodup := nodup_names_canonicalMembers hnames hraw
  rw [Json.lookup_sorted_of_nodup hnodup]
  cases hv : raw.lookup key with
  | some v =>
    apply Json.lookup_of_mem hnodup
    exact mem_canonicalMembers.mpr
      ⟨key, v, f, Json.mem_of_lookup hv, Json.lookup_of_mem hkeys hf, rfl, rfl⟩
  | none =>
    rw [Option.map_none, Json.lookup_eq_none_iff_notMem, names_canonicalMembers hraw.active]
    intro hmem
    obtain ⟨key', hkey', heq⟩ := List.mem_map.mp hmem
    have hsame : key' = key := hnames (hraw.active key' hkey') ⟨f, hf, hactive⟩ heq
    subst hsame
    exact Json.lookup_eq_none_iff_notMem.mp hv hkey'

theorem canonicalItems_eq_map (items : List Json) :
    canonicalItems fields overrides items = items.map (fun item =>
      match item with
      | .obj members => .obj (Json.Members.sorted (canonicalMembers fields overrides members))
      | other => other) := by
  induction items with
  | nil => rfl
  | cons item rest ih => cases item <;> simp [canonicalItems, ih]

end ProviderSdk
