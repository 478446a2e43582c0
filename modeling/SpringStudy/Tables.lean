import Mathlib.Data.List.AList

/-!
# Finite tables

A table is a finite map kept as its list of entries, no key twice. It stands
for a hash map of the modelled programs. A loop over a hash map meets the
entries in an order of its own, which need not be that of the list: where it
matters what a loop meets first, it goes through a `Traversal` of the list.
-/
namespace Tables

abbrev Table (κ ν : Type) := AList (fun _ : κ => ν)

/-- An order in which a loop may meet what it goes through. -/
structure Traversal (α : Type) where
  arrange : List α → List α
  perm : ∀ as, (arrange as).Perm as

/-- The order of the list itself. -/
def Traversal.listed {α : Type} : Traversal α := ⟨id, fun as => List.Perm.refl as⟩

variable {κ ν : Type}

/-- The stored values, one for each key. -/
def values (t : Table κ ν) : List ν := t.entries.map Sigma.snd

/-- Replace every value, keeping the keys and their order. -/
def mapValues (f : ν → ν) (t : Table κ ν) : Table κ ν where
  entries := t.entries.map fun e => ⟨e.1, f e.2⟩
  nodupKeys := by
    have h := t.nodupKeys
    simp only [List.NodupKeys, List.keys, List.map_map] at h ⊢
    exact h

@[simp] theorem keys_mapValues (f : ν → ν) (t : Table κ ν) : (mapValues f t).keys = t.keys := by
  simp [mapValues, AList.keys, List.keys]

theorem values_mapValues (f : ν → ν) (t : Table κ ν) : values (mapValues f t) = (values t).map f := by
  simp [values, mapValues]

/-- A table without keys is the empty one. -/
theorem eq_empty_iff (t : Table κ ν) : t = ∅ ↔ t.keys = [] := by
  constructor
  · rintro rfl; rfl
  · intro h
    apply AList.ext
    simpa [AList.keys, List.keys] using h

variable [DecidableEq κ]

@[simp] theorem lookup_put (t : Table κ ν) (k k' : κ) (v : ν) :
    (t.insert k v).lookup k' = if k' = k then some v else t.lookup k' := by
  by_cases h : k' = k
  · subst h; simp
  · simp [h, AList.lookup_insert_ne h]

@[simp] theorem lookup_remove (t : Table κ ν) (k k' : κ) :
    (t.erase k).lookup k' = if k' = k then none else t.lookup k' := by
  by_cases h : k' = k
  · subst h; simp
  · simp [h, AList.lookup_erase_ne h]

theorem lookup_remove_eq_some {t : Table κ ν} {k k' : κ} {v : ν} :
    (t.erase k).lookup k' = some v ↔ k' ≠ k ∧ t.lookup k' = some v := by
  rw [lookup_remove]
  split
  · next hk => simp [hk]
  · next hk => simp [hk]

/-- An entry of the list is what its key is looked up to, and conversely. -/
theorem mem_entries_iff (t : Table κ ν) (k : κ) (v : ν) :
    (⟨k, v⟩ : Sigma fun _ : κ => ν) ∈ t.entries ↔ t.lookup k = some v :=
  (AList.mem_lookup_iff (s := t)).symm

@[simp] theorem lookup_mapValues (f : ν → ν) (t : Table κ ν) (k : κ) :
    (mapValues f t).lookup k = (t.lookup k).map f := by
  cases h : t.lookup k with
  | none =>
    rw [AList.lookup_eq_none, AList.mem_keys] at h
    rw [Option.map_none, AList.lookup_eq_none, AList.mem_keys, keys_mapValues]
    exact h
  | some v =>
    rw [Option.map_some, ← mem_entries_iff]
    exact List.mem_map.mpr ⟨⟨k, v⟩, (mem_entries_iff t k v).mpr h, rfl⟩

theorem mem_values_iff (t : Table κ ν) (v : ν) : v ∈ values t ↔ ∃ k, t.lookup k = some v := by
  simp only [values, List.mem_map]
  constructor
  · rintro ⟨⟨k, w⟩, hk, rfl⟩
    exact ⟨k, (mem_entries_iff t k w).mp hk⟩
  · rintro ⟨k, hk⟩
    exact ⟨⟨k, v⟩, (mem_entries_iff t k v).mpr hk, rfl⟩

/-- A value that is under one key at most is listed once at most. -/
theorem values_nodup (t : Table κ ν)
    (h : ∀ k k' v, t.lookup k = some v → t.lookup k' = some v → k = k') : (values t).Nodup := by
  refine List.Nodup.map_on ?_ t.nodupKeys.nodup
  rintro ⟨k, v⟩ hk ⟨k', v'⟩ hk' (rfl : v = v')
  obtain rfl := h k k' v ((mem_entries_iff t k v).mp hk) ((mem_entries_iff t k' v).mp hk')
  rfl

theorem erase_absent (t : Table κ ν) (k : κ) (h : t.lookup k = none) : t.erase k = t := by
  apply AList.ext
  exact List.kerase_of_notMem_keys (AList.lookup_eq_none.mp h)

theorem values_insert (t : Table κ ν) (k : κ) (v : ν) : values (t.insert k v) = v :: values (t.erase k) :=
  rfl

/-- The values are the one of a key and those of the other keys. -/
theorem values_erase_perm (t : Table κ ν) (k : κ) (v : ν) (h : t.lookup k = some v) :
    (v :: values (t.erase k)).Perm (values t) := by
  have hk : k ∈ t.keys := AList.mem_keys.mp (AList.lookup_isSome.mp (by rw [h]; rfl))
  obtain ⟨w, l₁, l₂, -, hl, he⟩ := List.exists_of_kerase hk
  have hw : t.lookup k = some w := (mem_entries_iff t k w).mp (by rw [hl]; simp)
  obtain rfl : v = w := Option.some.inj (h.symm.trans hw)
  have herase : (t.erase k).entries = l₁ ++ l₂ := he
  rw [values, values, herase, hl]
  simpa using List.perm_middle.symm

theorem values_erase_count (t : Table κ ν) [DecidableEq ν] (k : κ) (v : ν) :
    (values t).count v = (values (t.erase k)).count v + if t.lookup k = some v then 1 else 0 := by
  cases h : t.lookup k with
  | none => simp [erase_absent t k h]
  | some w =>
    rw [← (values_erase_perm t k w h).count_eq, List.count_cons]
    simp

theorem eq_empty_of_lookup (t : Table κ ν) (h : ∀ k, t.lookup k = none) : t = ∅ := by
  rw [eq_empty_iff, List.eq_nil_iff_forall_not_mem]
  intro k hk
  exact AList.lookup_eq_none.mp (h k) (AList.mem_keys.mpr hk)

end Tables
