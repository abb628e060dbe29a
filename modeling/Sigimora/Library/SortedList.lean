import Mathlib.Data.List.Count
import Mathlib.Data.List.Sort
import Mathlib.Order.Lattice

/-!
# Sorted lists

After sorting by a key, an entry whose key occurs once stands at the position
that equals the number of smaller keys. Two lists are sorted to the same list
exactly if one is a rearrangement of the other.
-/

namespace SortedList

variable {α κ : Type*} [LinearOrder κ] {key : α → κ} {entries : List α} {e : α} {i : ℕ}

/-- The position of an entry with a unique key in a list in the order of the keys. -/
theorem getElem?_eq_some_iff (hsorted : entries.Pairwise fun a b => key a ≤ key b)
    (he : e ∈ entries) (hone : (entries.map key).count (key e) = 1) :
    entries[i]? = some e ↔ i = (entries.map key).countP (· < key e) := by
  induction entries generalizing i with
  | nil => cases he
  | cons a entries ih =>
    obtain ⟨hfirst, hrest⟩ := List.pairwise_cons.mp hsorted
    rw [List.map_cons, List.count_cons] at hone
    rw [List.map_cons, List.countP_cons]
    by_cases hkey : key a = key e
    · -- `a` is the entry itself, and no key is smaller than the first one
      have hcount : (entries.map key).count (key e) = 0 := by simpa [hkey] using hone
      have hnone : e ∉ entries := fun h =>
        List.count_eq_zero.mp hcount (List.mem_map.mpr ⟨e, h, rfl⟩)
      have hae : e = a := (List.mem_cons.mp he).resolve_right hnone
      have hsmaller : (entries.map key).countP (· < key e) = 0 := by
        refine List.countP_eq_zero.mpr ?_
        intro k hk
        obtain ⟨b, hb, rfl⟩ := List.mem_map.mp hk
        simpa [hae] using hfirst b hb
      rw [hsmaller, ← hae]
      cases i with
      | zero => simp
      | succ i =>
        have hnext : entries[i]? ≠ some e := fun h => hnone (List.mem_of_getElem? h)
        simp [hnext]
    · have hmem : e ∈ entries := (List.mem_cons.mp he).resolve_left fun h => hkey (h ▸ rfl)
      have hlt : key a < key e := lt_of_le_of_ne (hfirst e hmem) hkey
      have hcount : (entries.map key).count (key e) = 1 := by simpa [hkey] using hone
      cases i with
      | zero =>
        have hne : a ≠ e := fun h => hkey (h ▸ rfl)
        simp [hlt, hne]
      | succ i => simp [hlt, ih hrest hmem hcount]

/-- The position of an entry with a unique key after sorting. -/
theorem getElem?_mergeSort_eq_some_iff (he : e ∈ entries)
    (hone : (entries.map key).count (key e) = 1) :
    (entries.mergeSort fun a b => key a ≤ key b)[i]? = some e ↔
      i = (entries.map key).countP (· < key e) := by
  have hperm := entries.mergeSort_perm fun a b => key a ≤ key b
  have hsorted : (entries.mergeSort fun a b => key a ≤ key b).Pairwise
      fun a b => key a ≤ key b := by
    refine (List.pairwise_mergeSort ?_ ?_ entries).imp fun hab => of_decide_eq_true hab
    · intro a b c hab hbc
      simpa using le_trans (of_decide_eq_true hab) (of_decide_eq_true hbc)
    · intro a b
      simpa using le_total (key a) (key b)
  have hcount := (hperm.map key).count_eq (key e)
  rw [getElem?_eq_some_iff hsorted (hperm.mem_iff.mpr he) (hcount.trans hone),
    (hperm.map key).countP_eq]

omit [LinearOrder κ] in
/-- Sorting forgets the order and nothing else. -/
theorem mergeSort_eq_iff_perm (r : α → α → Prop) [DecidableRel r] [Std.Total r] [IsTrans α r]
    [Std.Antisymm r] {as bs : List α} :
    as.mergeSort (fun a b => r a b) = bs.mergeSort (fun a b => r a b) ↔ as.Perm bs := by
  have has := as.mergeSort_perm fun a b => r a b
  have hbs := bs.mergeSort_perm fun a b => r a b
  constructor
  · intro h
    exact has.symm.trans (h ▸ hbs)
  · intro h
    exact (has.trans (h.trans hbs.symm)).eq_of_pairwise' (List.pairwise_mergeSort' r as)
      (List.pairwise_mergeSort' r bs)

end SortedList
