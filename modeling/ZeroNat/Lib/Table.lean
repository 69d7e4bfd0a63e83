import Mathlib.Data.List.AList

/-!
# Tables

A finite map from keys to values, as the association lists without repeated keys of
Mathlib, with the further operations of a hash map.  The order of the entries is the one
in which a program that walks the table happens to meet them.
-/

/-- A finite map from `κ` to `ν`. -/
abbrev Table (κ ν : Type) : Type :=
  AList (fun _ : κ => ν)

namespace Table

variable {κ ν : Type} [DecidableEq κ]

/-- The number of entries. -/
def size (t : Table κ ν) : ℕ :=
  t.entries.length

/-- Keep the entries that satisfy `p`. -/
def retain (p : κ → ν → Bool) (t : Table κ ν) : Table κ ν where
  entries := t.entries.filter (fun e => p e.1 e.2)
  nodupKeys := List.NodupKeys.sublist List.filter_sublist t.nodupKeys

/-- Change every value. -/
def mapValues (f : κ → ν → ν) (t : Table κ ν) : Table κ ν where
  entries := t.entries.map (fun e => ⟨e.1, f e.1 e.2⟩)
  nodupKeys := by
    have hkeys : (t.entries.map (fun e => (⟨e.1, f e.1 e.2⟩ : Sigma fun _ : κ => ν))).keys
        = t.entries.keys := by
      rw [List.keys, List.map_map]
      rfl
    rw [List.NodupKeys, hkeys]
    exact t.nodupKeys

/-- The entries of a table, as pairs. -/
def toList (t : Table κ ν) : List (κ × ν) :=
  t.entries.map (fun e => (e.1, e.2))

theorem mem_toList {t : Table κ ν} {k : κ} {v : ν} :
  (k, v) ∈ t.toList ↔ t.lookup k = some v
  := by
  rw [← Option.mem_def, AList.mem_lookup_iff, toList, List.mem_map]
  constructor
  · rintro ⟨⟨k', v'⟩, hmem, heq⟩
    obtain ⟨rfl, rfl⟩ := Prod.mk.inj heq
    exact hmem
  · intro hmem
    exact ⟨⟨k, v⟩, hmem, rfl⟩

omit [DecidableEq κ] in
theorem nodup_toList (t : Table κ ν) :
  t.toList.Nodup
  := by
  apply List.Nodup.of_map Prod.fst
  rw [toList, List.map_map]
  exact t.nodupKeys

theorem lookup_retain (p : κ → ν → Bool) (t : Table κ ν) (k : κ) (v : ν) :
  (t.retain p).lookup k = some v ↔ t.lookup k = some v ∧ p k v
  := by
  rw [← Option.mem_def, ← Option.mem_def, AList.mem_lookup_iff, AList.mem_lookup_iff, retain,
    List.mem_filter]

theorem lookup_mapValues (f : κ → ν → ν) (t : Table κ ν) (k : κ) :
  (t.mapValues f).lookup k = (t.lookup k).map (f k)
  := by
  cases h : t.lookup k with
  | some v =>
      rw [Option.map_some, ← Option.mem_def, AList.mem_lookup_iff, mapValues]
      exact List.mem_map.mpr ⟨⟨k, v⟩, AList.mem_lookup_iff.mp h, rfl⟩
  | none =>
      rw [Option.map_none, AList.lookup_eq_none, AList.mem_keys]
      rw [AList.lookup_eq_none, AList.mem_keys] at h
      rw [AList.keys, mapValues, List.keys, List.map_map]
      exact h

theorem lookup_insert_eq (t : Table κ ν) (k k' : κ) (v : ν) :
  (t.insert k v).lookup k' = if k' = k then some v else t.lookup k'
  := by
  split
  · rename_i h
    rw [h, AList.lookup_insert]
  · rename_i h
    rw [AList.lookup_insert_ne h]

theorem lookup_erase_eq (t : Table κ ν) (k k' : κ) :
  (t.erase k).lookup k' = if k' = k then none else t.lookup k'
  := by
  split
  · rename_i h
    rw [h, AList.lookup_erase]
  · rename_i h
    rw [AList.lookup_erase_ne h]

theorem size_erase_le (t : Table κ ν) (k : κ) :
  size (t.erase k) ≤ t.size
  := (List.kerase_sublist k t.entries).length_le

omit [DecidableEq κ] in
theorem size_eq_length_keys (t : Table κ ν) :
  t.size = t.keys.length
  := by
  rw [size, AList.keys, List.keys, List.length_map]

theorem size_insert_le (t : Table κ ν) (k : κ) (v : ν) :
  size (t.insert k v) ≤ t.size + 1
  := by
  rw [size_eq_length_keys, AList.keys_insert, List.length_cons, size_eq_length_keys]
  exact Nat.succ_le_succ List.length_erase_le

/-- To replace the value of a key adds no entry. -/
theorem size_insert_of_lookup {t : Table κ ν} {k : κ} {v : ν} (hk : t.lookup k = some v) (w : ν) :
  size (t.insert k w) = t.size
  := by
  have hmem : k ∈ t.keys := by
    apply AList.mem_keys.mpr
    apply AList.lookup_isSome.mp
    rw [hk, Option.isSome_some]
  rw [size_eq_length_keys, AList.keys_insert, List.length_cons, size_eq_length_keys,
    List.length_erase_of_mem hmem]
  exact Nat.sub_add_cancel (List.length_pos_of_mem hmem)

theorem size_insert_of_none {t : Table κ ν} {k : κ} (hk : t.lookup k = none) (v : ν) :
  size (t.insert k v) = t.size + 1
  := by
  have hmem : k ∉ t.keys := fun hmem => AList.lookup_eq_none.mp hk (AList.mem_keys.mpr hmem)
  rw [size_eq_length_keys, AList.keys_insert, List.length_cons, size_eq_length_keys,
    List.erase_of_not_mem hmem]

theorem size_erase_of_lookup {t : Table κ ν} {k : κ} {v : ν} (hk : t.lookup k = some v) :
  size (t.erase k) + 1 = t.size
  := by
  have hmem : k ∈ t.keys := by
    apply AList.mem_keys.mpr
    apply AList.lookup_isSome.mp
    rw [hk, Option.isSome_some]
  rw [size_eq_length_keys, AList.keys_erase, size_eq_length_keys, List.length_erase_of_mem hmem]
  exact Nat.sub_add_cancel (List.length_pos_of_mem hmem)

omit [DecidableEq κ] in
theorem size_retain_le (p : κ → ν → Bool) (t : Table κ ν) :
  size (t.retain p) ≤ t.size
  := List.length_filter_le _ _

/-- The key of an entry is the first of a table with one entry. -/
theorem keys_of_size_one {t : Table κ ν} {k : κ} {v : ν} (hsize : t.size = 1)
    (hk : t.lookup k = some v) :
  t.keys.head? = some k
  := by
  obtain ⟨e, he⟩ := List.length_eq_one_iff.mp hsize
  have hmem : k ∈ t.keys := by
    apply AList.mem_keys.mpr
    apply AList.lookup_isSome.mp
    rw [hk, Option.isSome_some]
  rw [AList.keys, List.keys, he, List.map_singleton, List.mem_singleton] at hmem
  rw [AList.keys, List.keys, he, List.map_singleton, List.head?_cons, hmem]

theorem size_insert_empty (k : κ) (v : ν) :
  size ((∅ : Table κ ν).insert k v) = 1
  := rfl

end Table
