import Mathlib.Algebra.BigOperators.Group.List.Basic

/-!
# Accumulating loops

Loops that add up the entries of a list, possibly skipping some, as sums over
the list. Sums do not depend on the order of the entries.
-/

namespace Accumulate

variable {α M : Type*} [AddCommMonoid M]

/-- A loop that adds `f x` for every entry. -/
theorem foldl_add (f : α → M) (entries : List α) (acc : M) :
    entries.foldl (fun acc x => acc + f x) acc = acc + (entries.map f).sum := by
  induction entries generalizing acc with
  | nil => simp
  | cons x entries ih => simp [ih, add_assoc]

/-- A loop that adds `f x` for the entries that pass the test. -/
theorem foldl_add_if (p : α → Prop) [DecidablePred p] (f : α → M) (entries : List α) (acc : M) :
    entries.foldl (fun acc x => if p x then acc + f x else acc) acc =
      acc + ((entries.filter fun x => p x).map f).sum := by
  induction entries generalizing acc with
  | nil => simp
  | cons x entries ih => by_cases hx : p x <;> simp [hx, ih, add_assoc]

/-- A loop that adds `f x` for the entries that pass the test, and counts them. -/
theorem foldl_add_count_if (p : α → Prop) [DecidablePred p] (f : α → M) (entries : List α)
    (acc : M × ℕ) :
    entries.foldl (fun acc x => if p x then (acc.1 + f x, acc.2 + 1) else acc) acc =
      (acc.1 + ((entries.filter fun x => p x).map f).sum,
        acc.2 + (entries.filter fun x => p x).length) := by
  induction entries generalizing acc with
  | nil => simp
  | cons x entries ih =>
    by_cases hx : p x
    · simp only [List.foldl_cons, if_pos hx, ih, List.filter_cons, decide_eq_true hx, if_true,
        List.map_cons, List.sum_cons, List.length_cons, add_assoc, Nat.add_comm 1]
    · simp [hx, ih]

/-- Adding up the columns of a table adds up its rows. -/
theorem sum_columns {rows : List (List M)} {width : ℕ} (h : ∀ row ∈ rows, row.length = width) :
    ((List.range width).map fun j => (rows.map fun row => row.getD j 0).sum).sum =
      (rows.map List.sum).sum := by
  induction rows with
  | nil => simp
  | cons row rows ih =>
    have hrow : (List.range width).map (fun j => row.getD j 0) = row := by
      refine List.ext_getElem (by simp [h row List.mem_cons_self]) fun j _ hj => ?_
      simp [hj]
    simp only [List.map_cons, List.sum_cons, List.sum_map_add, hrow]
    rw [ih fun row hmem => h row (List.mem_cons_of_mem _ hmem)]

end Accumulate
