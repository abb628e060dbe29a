import Mathlib.LinearAlgebra.Lagrange

/-!
# Interpolation at zero

A polynomial of degree below `s.card` is determined by its values on the node
set `s`, and its value at zero is a fixed linear combination of them. The
weights do not depend on the polynomial, so the same combination also works on
values that are only known in the exponent, that is, as multiples of a point of
a module over the field.
-/

namespace Interpolation

open Polynomial

variable {F M : Type*} [Field F] [DecidableEq F] [AddCommGroup M] [Module F M]

/-- The weight of the node `x` in the interpolation at zero over the nodes `s`. -/
def weight (s : Finset F) (x : F) : F :=
  (∏ y ∈ s.erase x, -y) * (∏ y ∈ s.erase x, (x - y))⁻¹

/-- The interpolation at zero of the values `f`, read as elements of a module. -/
def combine (s : Finset F) (f : F → M) : M := ∑ x ∈ s, weight s x • f x

/-- The weights are the Lagrange basis polynomials evaluated at zero. -/
theorem weight_eq_eval_basis (s : Finset F) (x : F) :
    weight s x = (Lagrange.basis s id x).eval 0 := by
  simp only [weight, Lagrange.basis, Lagrange.basisDivisor, eval_prod, eval_mul, eval_C,
    eval_sub, eval_X, zero_sub, id_eq, Finset.prod_mul_distrib, Finset.prod_inv_distrib]
  exact mul_comm _ _

/-- Over nonzero nodes no weight vanishes. -/
theorem weight_ne_zero {s : Finset F} (hzero : 0 ∉ s) (x : F) : weight s x ≠ 0 := by
  refine mul_ne_zero (Finset.prod_ne_zero_iff.mpr fun y hy => ?_) (inv_ne_zero
    (Finset.prod_ne_zero_iff.mpr fun y hy => sub_ne_zero.mpr (Finset.ne_of_mem_erase hy).symm))
  rw [neg_ne_zero]
  rintro rfl
  exact hzero (Finset.mem_of_mem_erase hy)

/-- Only the values at the nodes count. -/
theorem combine_congr {s : Finset F} {f g : F → M} (h : ∀ x ∈ s, f x = g x) :
    combine s f = combine s g :=
  Finset.sum_congr rfl fun x hx => by rw [h x hx]

/-- Sums are combined term by term. -/
theorem combine_add (s : Finset F) (f g : F → M) :
    combine s (fun x => f x + g x) = combine s f + combine s g := by
  simp only [combine, smul_add, Finset.sum_add_distrib]

/-- Interpolating multiples of one point interpolates the factors. -/
theorem combine_smul_point (s : Finset F) (f : F → F) (P : M) :
    combine s (fun x => f x • P) = combine s f • P := by
  simp only [combine, Finset.sum_smul, smul_eq_mul, mul_smul]

/-- The interpolating polynomial takes the interpolated value at zero. -/
theorem eval_zero_interpolate (s : Finset F) (f : F → F) :
    (Lagrange.interpolate s id f).eval 0 = combine s f := by
  simp only [Lagrange.interpolate_apply, eval_finsetSum, eval_mul, eval_C, combine,
    weight_eq_eval_basis, smul_eq_mul]
  exact Finset.sum_congr rfl fun x _ => mul_comm _ _

/-- **Interpolation.** Enough values of a polynomial of bounded degree
interpolate to its value at zero. -/
theorem combine_eval {s : Finset F} {p : F[X]} (hp : p.degree < s.card) :
    combine s (fun x => p.eval x) = p.eval 0 := by
  rw [← eval_zero_interpolate]
  congr 1
  exact (Lagrange.eq_interpolate (Set.injOn_id _) hp).symm

/-- Interpolation in the exponent of the point `P`. -/
theorem combine_eval_smul {s : Finset F} {p : F[X]} (hp : p.degree < s.card) (P : M) :
    combine s (fun x => p.eval x • P) = p.eval 0 • P := by
  rw [combine_smul_point, combine_eval hp]

/-- A polynomial that vanishes on nonzero nodes `s` and is one at zero. -/
theorem exists_mask {s : Finset F} (hzero : 0 ∉ s) :
    ∃ m : F[X], m.degree = s.card ∧ m.eval 0 = 1 ∧ ∀ x ∈ s, m.eval x = 0 := by
  refine ⟨Lagrange.basis (insert 0 s) id 0, ?_, ?_, ?_⟩
  · rw [Lagrange.degree_basis (Set.injOn_id _) (Finset.mem_insert_self 0 s),
      Finset.card_insert_of_notMem hzero, Nat.add_sub_cancel]
  · exact Lagrange.eval_basis_self (Set.injOn_id _) (Finset.mem_insert_self 0 s)
  · intro x hx
    have hne : (0 : F) ≠ x := by
      rintro rfl
      exact hzero hx
    exact Lagrange.eval_basis_of_ne (v := id) hne (Finset.mem_insert_of_mem hx)

/-- One polynomial of degree at most the number of the nodes takes the values `f` on nonzero
nodes `s` and the value `K` at zero. -/
theorem existsUnique_polynomial {s : Finset F} (hzero : 0 ∉ s) (f : F → F) (K : F) :
    ∃! p : F[X], p.degree < (s.card + 1 : ℕ) ∧ p.eval 0 = K ∧ ∀ x ∈ s, p.eval x = f x := by
  let value := Function.update f 0 K
  have hcard : (insert 0 s).card = s.card + 1 := Finset.card_insert_of_notMem hzero
  have hzeroValue : value 0 = K := Function.update_self 0 K f
  have hvalue : ∀ x ∈ s, value x = f x := by
    intro x hx
    refine Function.update_of_ne ?_ K f
    rintro rfl
    exact hzero hx
  refine ⟨Lagrange.interpolate (insert 0 s) id value, ⟨?_, ?_, ?_⟩, ?_⟩
  · rw [← hcard]
    exact Lagrange.degree_interpolate_lt value (Set.injOn_id _)
  · rw [← hzeroValue]
    exact Lagrange.eval_interpolate_at_node value (Set.injOn_id _) (Finset.mem_insert_self 0 s)
  · intro x hx
    rw [← hvalue x hx]
    exact Lagrange.eval_interpolate_at_node value (Set.injOn_id _) (Finset.mem_insert_of_mem hx)
  · rintro p ⟨hp, hpzero, hpvalues⟩
    rw [← hcard] at hp
    refine Lagrange.eq_interpolate_of_eval_eq value (Set.injOn_id _) hp ?_
    intro x hx
    rcases Finset.mem_insert.mp hx with rfl | hx
    · exact hpzero.trans hzeroValue.symm
    · exact (hpvalues x hx).trans (hvalue x hx).symm

/-- The values `f` interpolate to `K` over every choice of `k` of the nodes. -/
def Interpolates (nodes : Finset F) (k : ℕ) (f : F → M) (K : M) : Prop :=
  ∀ s ⊆ nodes, s.card = k → combine s f = K

/-- Only the values at the nodes count. -/
theorem Interpolates.congr {nodes : Finset F} {k : ℕ} {f g : F → M} {K : M}
    (h : Interpolates nodes k f K) (hfg : ∀ x ∈ nodes, f x = g x) : Interpolates nodes k g K := by
  intro s hs hcard
  rw [← h s hs hcard]
  exact combine_congr fun x hx => (hfg x (hs hx)).symm

/-- Sums interpolate the sum. -/
theorem Interpolates.add {nodes : Finset F} {k : ℕ} {f g : F → M} {K L : M}
    (hf : Interpolates nodes k f K) (hg : Interpolates nodes k g L) :
    Interpolates nodes k (fun x => f x + g x) (K + L) := by
  intro s hs hcard
  rw [combine_add, hf s hs hcard, hg s hs hcard]

/-- The values of a polynomial of degree below `k` interpolate to its value at zero. -/
theorem interpolates_eval {p : F[X]} {k : ℕ} (hp : p.degree < k) (nodes : Finset F) :
    Interpolates nodes k (fun x => p.eval x) (p.eval 0) := by
  intro s _ hcard
  exact combine_eval (by rwa [hcard])

/-- Values that interpolate to one and the same `K` over all choices of `k`
nonzero nodes lie on one polynomial of degree below `k` through `(0, K)`. -/
theorem Interpolates.exists_polynomial {nodes : Finset F} {k : ℕ} {f : F → F} {K : F}
    (h : Interpolates nodes k f K) (hk : 0 < k) (hcard : k ≤ nodes.card) (hzero : 0 ∉ nodes) :
    ∃ p : F[X], p.degree < k ∧ p.eval 0 = K ∧ ∀ x ∈ nodes, p.eval x = f x := by
  obtain ⟨s, hs, hsk⟩ := Finset.exists_subset_card_eq hcard
  refine ⟨Lagrange.interpolate s id f, ?_, ?_, ?_⟩
  · rw [← hsk]
    exact Lagrange.degree_interpolate_lt f (Set.injOn_id _)
  · rw [eval_zero_interpolate, h s hs hsk]
  · intro x hx
    by_cases hxs : x ∈ s
    · exact Lagrange.eval_interpolate_at_node f (Set.injOn_id _) hxs
    · -- exchange one node of `s` for `x`: both interpolants pass through `(0, K)`
      obtain ⟨z, hz⟩ : s.Nonempty := Finset.card_pos.mp (by omega)
      have hxz : x ∉ s.erase z := fun hmem => hxs (Finset.mem_of_mem_erase hmem)
      let u := insert x (s.erase z)
      have hu : u ⊆ nodes := by
        intro y hy
        rcases Finset.mem_insert.mp hy with rfl | hy
        · exact hx
        · exact hs (Finset.mem_of_mem_erase hy)
      have huk : u.card = k := by
        rw [Finset.card_insert_of_notMem hxz, Finset.card_erase_of_mem hz, hsk]
        omega
      have hzero' : (0 : F) ∉ s.erase z := fun hmem => hzero (hs (Finset.mem_of_mem_erase hmem))
      have hagree : (insert 0 (s.erase z)).card = k := by
        rw [Finset.card_insert_of_notMem hzero', Finset.card_erase_of_mem hz, hsk]
        omega
      have heq : Lagrange.interpolate s id f = Lagrange.interpolate u id f := by
        refine eq_of_degrees_lt_of_eval_finset_eq (insert 0 (s.erase z)) ?_ ?_ ?_
        · rw [hagree, ← hsk]
          exact Lagrange.degree_interpolate_lt f (Set.injOn_id _)
        · rw [hagree, ← huk]
          exact Lagrange.degree_interpolate_lt f (Set.injOn_id _)
        · intro y hy
          rcases Finset.mem_insert.mp hy with rfl | hy
          · rw [eval_zero_interpolate, eval_zero_interpolate, h s hs hsk, h u hu huk]
          · have hys := Lagrange.eval_interpolate_at_node f (Set.injOn_id (s : Set F))
              (Finset.mem_of_mem_erase hy)
            have hyu := Lagrange.eval_interpolate_at_node f (Set.injOn_id (u : Set F))
              (Finset.mem_insert_of_mem hy)
            exact hys.trans hyu.symm
      rw [heq]
      exact Lagrange.eval_interpolate_at_node f (Set.injOn_id _) (Finset.mem_insert_self _ _)

/-- Interpolating to `K` is lying on one polynomial of low degree through `(0, K)`. -/
theorem interpolates_iff_exists_polynomial {nodes : Finset F} {k : ℕ} {f : F → F} {K : F}
    (hk : 0 < k) (hcard : k ≤ nodes.card) (hzero : 0 ∉ nodes) :
    Interpolates nodes k f K ↔
      ∃ p : F[X], p.degree < k ∧ p.eval 0 = K ∧ ∀ x ∈ nodes, p.eval x = f x := by
  constructor
  · intro h
    exact h.exists_polynomial hk hcard hzero
  · rintro ⟨p, hp, rfl, hvalues⟩
    exact (interpolates_eval hp nodes).congr hvalues

/-- Interpolating multiples of a point that no other scalar than zero annihilates. -/
theorem interpolates_smul_iff {nodes : Finset F} {k : ℕ} {f : F → F} {K : F} {P : M}
    (hP : P ≠ 0) : Interpolates nodes k (fun x => f x • P) (K • P) ↔ Interpolates nodes k f K := by
  refine forall_congr' fun s => forall_congr' fun _ => forall_congr' fun _ => ?_
  rw [combine_smul_point]
  constructor
  · intro h
    exact smul_left_injective F hP h
  · intro h
    rw [h]

omit [DecidableEq F] in
/-- A polynomial through the origin takes multiples of the nodes exactly if the factors are
values of a polynomial of lower degree. -/
theorem exists_polynomial_mul_iff {nodes : Finset F} {k : ℕ} {f : F → F} (hzero : 0 ∉ nodes) :
    (∃ p : F[X], p.degree < ((k + 1 : ℕ) : WithBot ℕ) ∧ p.eval 0 = 0 ∧
        ∀ x ∈ nodes, p.eval x = x * f x) ↔
      ∃ q : F[X], q.degree < k ∧ ∀ x ∈ nodes, q.eval x = f x := by
  constructor
  · rintro ⟨p, hdegree, horigin, hvalues⟩
    refine ⟨p.divX, ?_, fun x hx => ?_⟩
    · rw [degree_lt_iff_coeff_zero] at hdegree ⊢
      intro m hm
      rw [coeff_divX]
      exact hdegree (m + 1) (by omega)
    · have hdiv := congrArg (eval x) (divX_mul_X_add p)
      rw [coeff_zero_eq_eval_zero, horigin, C_0, add_zero, eval_mul, eval_X, hvalues x hx,
        mul_comm] at hdiv
      exact mul_left_cancel₀ (fun hxzero => hzero (hxzero ▸ hx)) hdiv
  · rintro ⟨q, hdegree, hvalues⟩
    refine ⟨q * X, ?_, by rw [eval_mul, eval_X, mul_zero], fun x hx => ?_⟩
    · rw [degree_lt_iff_coeff_zero] at hdegree ⊢
      intro m hm
      obtain ⟨j, rfl⟩ : ∃ j, m = j + 1 := ⟨m - 1, by omega⟩
      rw [coeff_mul_X]
      exact hdegree j (by omega)
    · rw [eval_mul, eval_X, hvalues x hx, mul_comm]

/-- Multiples of the nodes cancel out, over all choices of at least `k` nodes, exactly if the
factors are values of a polynomial of lower degree. -/
theorem combine_mul_eq_zero_iff {nodes : Finset F} {k : ℕ} (hk : 0 < k) (hzero : 0 ∉ nodes)
    {f : F → F} : (∀ s ⊆ nodes, k ≤ s.card → combine s (fun x => x * f x) = 0) ↔
      ∃ q : F[X], q.degree < ((k - 1 : ℕ) : WithBot ℕ) ∧ ∀ x ∈ nodes, q.eval x = f x := by
  rw [← exists_polynomial_mul_iff hzero, Nat.sub_add_cancel hk]
  constructor
  · intro h
    by_cases hcard : k ≤ nodes.card
    · have hinterpolates : Interpolates nodes k (fun x => x * f x) 0 :=
        fun s hs hsk => h s hs hsk.ge
      exact hinterpolates.exists_polynomial hk hcard hzero
    · -- too few nodes to choose from: any values are interpolated
      refine ⟨Lagrange.interpolate (insert 0 nodes) id fun x => x * f x, ?_, ?_, fun x hx => ?_⟩
      · refine lt_of_lt_of_le (Lagrange.degree_interpolate_lt _ (Set.injOn_id _)) ?_
        rw [Finset.card_insert_of_notMem hzero]
        exact_mod_cast Nat.lt_of_not_le hcard
      · exact (Lagrange.eval_interpolate_at_node (v := id) _ (Set.injOn_id _)
          (Finset.mem_insert_self 0 nodes)).trans (zero_mul _)
      · exact Lagrange.eval_interpolate_at_node (v := id) _ (Set.injOn_id _)
          (Finset.mem_insert_of_mem hx)
  · rintro ⟨p, hdegree, horigin, hvalues⟩ s hs hsk
    have hp : p.degree < s.card := lt_of_lt_of_le hdegree (by exact_mod_cast hsk)
    rw [← horigin, ← combine_eval hp]
    exact combine_congr fun x hx => (hvalues x (hs hx)).symm

end Interpolation
