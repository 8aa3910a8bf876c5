import Mathlib.Data.String.Basic
import ProviderSdk.Json.Value

/-!
# Members of objects

Lookup of members by key. Sorting members lets the last of each key stand, so that nothing is lost
where no key occurs twice, and brings the keys into their order.
-/

namespace ProviderSdk.Json

variable {α β : Type}

theorem lookup_cons_ite (key k : String) (value : α) (rest : List (String × α)) :
    ((k, value) :: rest).lookup key = if key = k then some value else rest.lookup key := by
  by_cases h : key = k
  · simp [h]
  · have hb : (key == k) = false := by simpa using h
    simp only [List.lookup_cons, hb, h, if_false]

theorem mem_of_lookup {members : List (String × α)} {key : String} {value : α}
    (h : members.lookup key = some value) : (key, value) ∈ members := by
  obtain ⟨before, after, rfl, _⟩ := List.lookup_eq_some_iff.mp h
  simp

theorem lookup_of_mem {members : List (String × α)} (hkeys : (members.map Prod.fst).Nodup)
    {key : String} {value : α} (h : (key, value) ∈ members) : members.lookup key = some value := by
  induction members with
  | nil => simp at h
  | cons m rest ih =>
    obtain ⟨k, v⟩ := m
    obtain ⟨hk, hrest⟩ := List.nodup_cons.mp hkeys
    rcases List.mem_cons.mp h with heq | hmem
    · cases heq
      simp
    · have hne : key ≠ k := by
        intro he
        apply hk
        exact List.mem_map.mpr ⟨(key, value), hmem, he⟩
      rw [lookup_cons_ite, if_neg hne]
      exact ih hrest hmem

theorem eq_of_mem_of_mem {members : List (String × α)} (hkeys : (members.map Prod.fst).Nodup)
    {key : String} {value value' : α} (h : (key, value) ∈ members) (h' : (key, value') ∈ members) :
    value = value' :=
  Option.some.inj ((lookup_of_mem hkeys h).symm.trans (lookup_of_mem hkeys h'))

theorem lookup_eq_none_iff_notMem {members : List (String × α)} {key : String} :
    members.lookup key = none ↔ key ∉ members.map Prod.fst := by
  induction members with
  | nil => simp
  | cons m rest ih =>
    obtain ⟨k, v⟩ := m
    rw [lookup_cons_ite]
    by_cases h : key = k
    · simp [h]
    · rw [if_neg h, ih]
      simp only [List.map_cons, List.mem_cons, h, false_or]

theorem lookup_insertMember (key : String) (value : α) (members : List (String × α)) (k : String) :
    (insertMember key value members).lookup k = if k = key then some value else members.lookup k := by
  induction members with
  | nil => simp only [insertMember, lookup_cons_ite]
  | cons m rest ih =>
    obtain ⟨k₀, v₀⟩ := m
    rw [insertMember]
    split
    · next h =>
      subst h
      by_cases hk : k = key <;> simp [lookup_cons_ite, hk]
    · next h =>
      split
      · rw [lookup_cons_ite]
      · rw [lookup_cons_ite, lookup_cons_ite, ih]
        by_cases hk : k = k₀
        · have hne : k ≠ key := by
            rintro rfl
            exact h hk
          rw [if_pos hk, if_neg hne, if_pos hk]
        · rw [if_neg hk, if_neg hk]

/-- A member of a new key is put between two of the others. -/
theorem exists_insertMember {key : String} {members : List (String × α)} (hkey : key ∉ members.map Prod.fst)
    (value : α) :
    ∃ before after, members = before ++ after ∧
      insertMember key value members = before ++ (key, value) :: after := by
  induction members with
  | nil => exact ⟨[], [], rfl, rfl⟩
  | cons m rest ih =>
    obtain ⟨k, v⟩ := m
    simp only [List.map_cons, List.mem_cons, not_or] at hkey
    rw [insertMember, if_neg hkey.1]
    split
    · exact ⟨[], (k, v) :: rest, rfl, rfl⟩
    · obtain ⟨before, after, hrest, hinsert⟩ := ih hkey.2
      exact ⟨(k, v) :: before, after, by rw [hrest, List.cons_append], by rw [hinsert, List.cons_append]⟩

private theorem lookup_foldl_insertMember (members acc : List (String × α)) (key : String) :
    (members.foldl (fun acc m => insertMember m.1 m.2 acc) acc).lookup key =
      (members.reverse.lookup key).or (acc.lookup key) := by
  induction members generalizing acc with
  | nil => simp
  | cons m rest ih =>
    obtain ⟨k, v⟩ := m
    simp only [List.foldl_cons, ih, lookup_insertMember, List.reverse_cons, List.lookup_append,
      lookup_cons_ite, List.lookup_nil, Option.or_assoc]
    by_cases h : key = k <;> simp [h]

theorem lookup_sorted (members : List (String × α)) (key : String) :
    (Members.sorted members).lookup key = members.reverse.lookup key := by
  have h := lookup_foldl_insertMember members [] key
  simpa [Members.sorted] using h

/-- Sorting changes no lookup where no key occurs twice. -/
theorem lookup_sorted_of_nodup {members : List (String × α)} (hkeys : (members.map Prod.fst).Nodup)
    (key : String) : (Members.sorted members).lookup key = members.lookup key := by
  have hrev : (members.reverse.map Prod.fst).Nodup := by
    rw [List.map_reverse]
    unfold List.Nodup
    rw [List.pairwise_reverse]
    exact hkeys.imp Ne.symm
  rw [lookup_sorted]
  cases h : members.lookup key with
  | none =>
    rw [lookup_eq_none_iff_notMem] at h ⊢
    simpa using h
  | some value => exact lookup_of_mem hrev (List.mem_reverse.mpr (mem_of_lookup h))

theorem lookup_reverse_of_nodup {members : List (String × α)} (hkeys : (members.map Prod.fst).Nodup)
    (key : String) :
    members.reverse.lookup key = members.lookup key := by
  rw [← lookup_sorted, lookup_sorted_of_nodup hkeys]

def Ascending (members : List (String × α)) : Prop := (members.map Prod.fst).Pairwise (· < ·)

theorem mem_of_mem_insertMember {key : String} {value : α} {members : List (String × α)} {m : String × α}
    (h : m ∈ insertMember key value members) : m = (key, value) ∨ m ∈ members := by
  induction members with
  | nil => simpa [insertMember] using h
  | cons first rest ih =>
    rw [insertMember] at h
    split at h
    · rcases List.mem_cons.mp h with rfl | h
      · exact .inl rfl
      · exact .inr (List.mem_cons_of_mem _ h)
    · split at h
      · exact List.mem_cons.mp h
      · rcases List.mem_cons.mp h with rfl | h
        · exact .inr List.mem_cons_self
        · exact (ih h).imp_right (List.mem_cons_of_mem _)

theorem Ascending.insertMember {members : List (String × α)} (h : Ascending members) (key : String)
    (value : α) :
    Ascending (insertMember key value members) := by
  induction members with
  | nil => exact List.pairwise_singleton _ _
  | cons first rest ih =>
    obtain ⟨hfirst, hrest⟩ := List.pairwise_cons.mp h
    rw [Json.insertMember]
    split
    · next heq =>
      subst heq
      exact h
    · next hne =>
      split
      · next hlt =>
        refine List.pairwise_cons.mpr ⟨fun k hk => ?_, h⟩
        rcases List.mem_cons.mp hk with rfl | hk
        · exact hlt
        · exact hlt.trans (hfirst k hk)
      · next hnlt =>
        refine List.pairwise_cons.mpr ⟨fun k hk => ?_, ih hrest⟩
        obtain ⟨m, hm, rfl⟩ := List.mem_map.mp hk
        rcases mem_of_mem_insertMember hm with rfl | hm
        · exact lt_of_le_of_ne (le_of_not_gt hnlt) (Ne.symm hne)
        · exact hfirst _ (List.mem_map_of_mem hm)

theorem mem_of_mem_sorted {members : List (String × α)} {m : String × α} (h : m ∈ Members.sorted members) :
    m ∈ members := by
  have hfold (members acc : List (String × α))
      (h : m ∈ members.foldl (fun acc m => insertMember m.1 m.2 acc) acc) : m ∈ acc ∨ m ∈ members := by
    induction members generalizing acc with
    | nil => exact .inl h
    | cons first rest ih =>
      rcases ih _ h with h | h
      · rcases mem_of_mem_insertMember h with rfl | h
        · exact .inr List.mem_cons_self
        · exact .inl h
      · exact .inr (List.mem_cons_of_mem _ h)
  simpa using hfold members [] h

theorem ascending_sorted (members : List (String × α)) : Ascending (Members.sorted members) := by
  have hfold (members acc : List (String × α)) (h : Ascending acc) :
      Ascending (members.foldl (fun acc m => insertMember m.1 m.2 acc) acc) := by
    induction members generalizing acc with
    | nil => exact h
    | cons first rest ih => exact ih _ (h.insertMember _ _)
  exact hfold members [] List.Pairwise.nil

theorem Ascending.nodup {members : List (String × α)} (h : Ascending members) :
    (members.map Prod.fst).Nodup :=
  h.imp ne_of_lt

/-- Where equal keys have equal values, sorting loses no member. -/
theorem lookup_sorted_eq_some_iff {members : List (String × α)} {key : String} {value : α}
    (hsame : ∀ value value', (key, value) ∈ members → (key, value') ∈ members → value = value') :
    (Members.sorted members).lookup key = some value ↔ (key, value) ∈ members := by
  refine ⟨fun h => mem_of_mem_sorted (mem_of_lookup h), fun h => ?_⟩
  cases hlookup : (Members.sorted members).lookup key with
  | none =>
    rw [lookup_sorted, lookup_eq_none_iff_notMem, List.map_reverse, List.mem_reverse] at hlookup
    exact absurd (List.mem_map_of_mem h) hlookup
  | some value' => rw [hsame value value' h (mem_of_mem_sorted (mem_of_lookup hlookup))]

/-- Members in the order of their keys are determined by what is found under each key. -/
theorem Ascending.ext {members members' : List (String × α)} (h : Ascending members) (h' : Ascending members')
    (hlookup : ∀ key, members.lookup key = members'.lookup key) : members = members' := by
  have hnodup {ms : List (String × α)} (hms : Ascending ms) : ms.Nodup :=
    List.Pairwise.of_map Prod.fst (fun _ _ hne heq => hne (congrArg Prod.fst heq)) hms.nodup
  have hperm : members.Perm members' := by
    refine (List.perm_ext_iff_of_nodup (hnodup h) (hnodup h')).mpr (fun m => ⟨fun hm => ?_, fun hm => ?_⟩)
    · exact mem_of_lookup ((hlookup m.1).symm.trans (lookup_of_mem h.nodup hm))
    · exact mem_of_lookup ((hlookup m.1).trans (lookup_of_mem h'.nodup hm))
  refine hperm.eq_of_pairwise ?_ (List.pairwise_map.mp h) (List.pairwise_map.mp h')
  intro a b _ _ hab hba
  exact absurd (hab.trans hba) (lt_irrefl _)

end ProviderSdk.Json
