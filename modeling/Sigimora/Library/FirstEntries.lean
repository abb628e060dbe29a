import Mathlib.Data.Finset.Dedup
import Mathlib.Data.List.Induction
import Mathlib.Data.List.Nodup

/-!
# First entries

The first entry of each key in a list, in their order. A list that takes an entry
only if its key is new holds exactly these.
-/

namespace FirstEntries

variable {α κ : Type*} [DecidableEq κ] (key : α → κ)

/-- The first entry of each key. -/
def ofEach (entries : List α) : List α := entries.eraseDupsBy fun a b => key a == key b

variable {key} {entries : List α} {e : α} {k : κ}

/-- The first entry stays, and further entries with its key go. -/
theorem ofEach_cons : ofEach key (e :: entries) =
    e :: ofEach key (entries.filter fun b => key b ≠ key e) := by
  rw [ofEach, List.eraseDupsBy_cons, ofEach]
  simp

/-- An entry at the end counts if its key is new. -/
theorem ofEach_append_singleton : ofEach key (entries ++ [e]) =
    if key e ∈ entries.map key then ofEach key entries else ofEach key entries ++ [e] := by
  induction hlength : entries.length using Nat.strong_induction_on generalizing entries with
  | _ n ih =>
    cases entries with
    | nil => simp [ofEach, List.eraseDupsBy_cons]
    | cons a rest =>
      have hshorter : (rest.filter fun b => key b ≠ key a).length < n := by
        rw [← hlength, List.length_cons]
        exact Nat.lt_succ_of_le (List.length_filter_le _ rest)
      rw [List.cons_append, ofEach_cons, ofEach_cons, List.filter_append]
      by_cases ha : key e = key a
      · simp [ha]
      · have hmem : key e ∈ (rest.filter fun b => key b ≠ key a).map key ↔
            key e ∈ (a :: rest).map key := by
          simp only [List.mem_map, List.mem_filter, List.map_cons, List.mem_cons, ha, false_or]
          constructor
          · rintro ⟨b, ⟨hb, _⟩, hkey⟩
            exact ⟨b, hb, hkey⟩
          · rintro ⟨b, hb, hkey⟩
            exact ⟨b, ⟨hb, by simpa [hkey] using ha⟩, hkey⟩
        have hstep := ih _ hshorter rfl
        simp only [hmem] at hstep
        rw [List.filter_cons_of_pos (by simpa using ha), List.filter_nil, hstep]
        split <;> rfl

/-- Every key has an entry. -/
theorem mem_keys_ofEach : k ∈ (ofEach key entries).map key ↔ k ∈ entries.map key := by
  induction entries using List.reverseRecOn with
  | nil => rfl
  | append_singleton entries e ih =>
    rw [ofEach_append_singleton, List.map_append, List.mem_append]
    split
    · next hold =>
      rw [ih]
      constructor
      · exact Or.inl
      · rintro (h | h)
        · exact h
        · rwa [List.mem_singleton.mp h]
    · rw [List.map_append, List.mem_append, ih]

/-- No key has two entries. -/
theorem nodup_keys_ofEach (entries : List α) : ((ofEach key entries).map key).Nodup := by
  induction entries using List.reverseRecOn with
  | nil => exact List.nodup_nil
  | append_singleton entries e ih =>
    rw [ofEach_append_singleton]
    split
    · exact ih
    · next hnew =>
      rw [List.map_append, List.map_singleton, List.nodup_append']
      refine ⟨ih, List.nodup_singleton _, ?_⟩
      rw [List.disjoint_singleton, mem_keys_ofEach]
      exact hnew

/-- The entry of a key is the first one. -/
theorem find?_ofEach (entries : List α) (k : κ) :
    (ofEach key entries).find? (fun e => key e = k) = entries.find? fun e => key e = k := by
  induction entries using List.reverseRecOn with
  | nil => rfl
  | append_singleton entries e ih =>
    rw [ofEach_append_singleton, List.find?_append]
    split
    · next hold =>
      rw [ih]
      by_cases hk : key e = k
      · -- the key is found before
        obtain ⟨a, ha, hkey⟩ := List.mem_map.mp hold
        have hfound : (entries.find? fun e => key e = k).isSome = true := by
          rw [List.find?_isSome]
          exact ⟨a, ha, by simp [hkey, hk]⟩
        rw [Option.or_of_isSome hfound]
      · simp [hk]
    · rw [List.find?_append, ih]

/-- The keys are those of the list. -/
theorem toFinset_keys_ofEach (entries : List α) :
    ((ofEach key entries).map key).toFinset = (entries.map key).toFinset := by
  ext k
  rw [List.mem_toFinset, List.mem_toFinset, mem_keys_ofEach]

end FirstEntries
