import Mathlib.NumberTheory.LucasPrimality
import Mathlib.Tactic.NormNum.Prime
import Mathlib.Tactic.ReduceModChar

/-!
# The group order

The scalar field of BLS12-381 has prime order `curveOrder`. Its primality is
Lucas's test with the generator 7 of the multiplicative group; the number
`curveOrder - 1` has only small prime factors.
-/

namespace Sigimora

/-- The prime order `r ≈ 2²⁵⁵` of the BLS12-381 groups. -/
def curveOrder : ℕ :=
  0x73eda753299d7d483339d80809a1d80553bda402fffe5bfeffffffff00000001

/-- The prime factors of `curveOrder - 1` with their exponents. -/
def orderFactors : List (ℕ × ℕ) :=
  [(2, 32), (3, 1), (11, 1), (19, 1), (10177, 1), (125527, 1), (859267, 1), (906349, 2),
    (2508409, 1), (2529403, 1), (52437899, 1), (254760293, 2)]

/-- The factors multiply to one less than the order of the curve. -/
theorem prod_orderFactors : (orderFactors.map fun f => f.1 ^ f.2).prod = curveOrder - 1 := by
  norm_num [orderFactors, curveOrder]

/-- The factors are prime. -/
theorem orderFactors_prime : ∀ f ∈ orderFactors, f.1.Prime := by
  simp only [orderFactors, List.forall_mem_cons]
  norm_num

/-- Every prime divisor of `curveOrder - 1` is listed. -/
theorem mem_orderFactors {q : ℕ} (hq : q.Prime) (hdvd : q ∣ curveOrder - 1) :
    ∃ f ∈ orderFactors, f.1 = q := by
  rw [← prod_orderFactors] at hdvd
  obtain ⟨power, hpower, hqpower⟩ := (hq.prime.dvd_prod_iff).mp hdvd
  obtain ⟨f, hf, rfl⟩ := List.mem_map.mp hpower
  have hqf : q ∣ f.1 := hq.dvd_of_dvd_pow hqpower
  exact ⟨f, hf, ((Nat.prime_dvd_prime_iff_eq hq (orderFactors_prime f hf)).mp hqf).symm⟩

/-- Seven to one less than the order of the curve is one. -/
theorem seven_pow_order : (7 : ZMod curveOrder) ^ (curveOrder - 1) = 1 := by
  unfold curveOrder
  norm_num
  reduce_mod_char

/-- No proper divisor of the exponent brings the generator back to one. -/
theorem seven_pow_factor :
    ∀ f ∈ orderFactors, (7 : ZMod curveOrder) ^ ((curveOrder - 1) / f.1) ≠ 1 := by
  simp only [orderFactors, List.forall_mem_cons]
  unfold curveOrder
  norm_num
  reduce_mod_char
  decide

/-- The order of the groups is prime. -/
theorem curveOrder_prime : curveOrder.Prime := by
  apply lucas_primality curveOrder 7 seven_pow_order
  intro q hq hdvd
  obtain ⟨f, hf, rfl⟩ := mem_orderFactors hq hdvd
  exact seven_pow_factor f hf

instance : Fact curveOrder.Prime := ⟨curveOrder_prime⟩

end Sigimora
