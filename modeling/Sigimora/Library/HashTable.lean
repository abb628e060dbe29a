import Mathlib.Data.List.AList

/-!
# Hash tables

A table from keys to records, with at most one record for each key. A lookup after
an insertion or a removal is a case distinction over the keys.
-/

/-- A table by keys of type `κ`. -/
abbrev HashTable (κ α : Type) := AList fun _ : κ => α

namespace HashTable

variable {κ α : Type} [DecidableEq κ] (k key : κ) (record : α) (table : HashTable κ α)

/-- Looking up after an insertion. -/
theorem lookup_insert : (table.insert key record).lookup k =
    if k = key then some record else table.lookup k := by
  split
  · next h => rw [h, AList.lookup_insert]
  · next h => rw [AList.lookup_insert_ne h]

/-- Looking up after a removal. -/
theorem lookup_erase : (table.erase key).lookup k = if k = key then none else table.lookup k := by
  split
  · next h => rw [h, AList.lookup_erase]
  · next h => rw [AList.lookup_erase_ne h]

variable {k table}

/-- The keys of a table are those that are found. -/
theorem mem_iff_lookup : k ∈ table ↔ ∃ record, table.lookup k = some record := by
  rw [← AList.lookup_isSome, Option.isSome_iff_exists]

/-- Other keys are not found. -/
theorem notMem_iff_lookup : k ∉ table ↔ table.lookup k = none := AList.lookup_eq_none.symm

/-- Every record is stored under its own key. -/
def Keyed (keyOf : α → κ) (table : HashTable κ α) : Prop :=
  ∀ k record, table.lookup k = some record → keyOf record = k

variable {keyOf : α → κ} {key record}

/-- The empty table is keyed. -/
theorem keyed_empty : Keyed keyOf (∅ : HashTable κ α) := by
  intro k record h
  cases h

/-- Inserting a record under its own key keeps a table keyed. -/
theorem Keyed.insert (h : Keyed keyOf table) (hrecord : keyOf record = key) :
    Keyed keyOf (table.insert key record) := by
  intro k stored hstored
  rw [lookup_insert] at hstored
  split at hstored
  · next hk => rw [hk, ← Option.some.inj hstored, hrecord]
  · exact h k stored hstored

/-- Removing a record does, too. -/
theorem Keyed.erase (h : Keyed keyOf table) : Keyed keyOf (table.erase key) := by
  intro k stored hstored
  rw [lookup_erase] at hstored
  split at hstored
  · cases hstored
  · exact h k stored hstored

end HashTable
