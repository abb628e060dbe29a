import Mathlib.Algebra.BigOperators.Group.List.Basic
import Mathlib.Data.Nat.Size
import Sigimora.Math.Scalar

/-!
# Powers of scalars

Exponentiation by repeated squaring. A round of the loop halves the exponent and
keeps the product of the accumulator with the power that is still to be taken,
so that the loop ends after as many rounds as the exponent has bits, with the
power in the accumulator.
-/

namespace Sigimora.Scalar

/-- The variables of the loop in `pow_u64`. -/
structure PowState where
  result : Scalar
  base : Scalar
  e : UInt64

/-- One round of the loop. -/
def PowState.next (s : PowState) : PowState where
  result := if s.e &&& 1 = 1 then s.result * s.base else s.result
  base := s.base * s.base
  e := s.e >>> 1

/-- A round drops the last bit of the exponent. -/
@[simp] theorem PowState.toNat_e_next (s : PowState) : s.next.e.toNat = s.e.toNat / 2 := by
  simp [next, Nat.shiftRight_eq_div_pow]

/-- The loop goes on while the number of the exponent is not zero. -/
theorem PowState.e_pos_iff {s : PowState} : s.e > 0 ↔ 0 < s.e.toNat := by
  simp [UInt64.lt_iff_toNat_lt]

/-- The loop: rounds as long as the exponent is not used up. -/
def powLoop (s : PowState) : Scalar :=
  if s.e > 0 then powLoop s.next else s.result
termination_by s.e.toNat
decreasing_by
  have hpos := PowState.e_pos_iff.mp ‹s.e > 0›
  rw [PowState.toNat_e_next]
  omega

/-- The state at the start of the loop. -/
def PowState.start (self : Scalar) (exp : UInt64) : PowState where
  result := 1
  base := self
  e := exp

/-- The power of a scalar to a machine integer. -/
def powU64 (self : Scalar) (exp : UInt64) : Scalar := powLoop (PowState.start self exp)

/-! ## The rounds -/

/-- The exponent after some rounds. -/
theorem PowState.toNat_e_iterate (s : PowState) (k : ℕ) :
    (next^[k] s).e.toNat = s.e.toNat / 2 ^ k := by
  induction k with
  | zero => rw [Function.iterate_zero_apply, pow_zero, Nat.div_one]
  | succ k ih =>
    rw [Function.iterate_succ_apply', toNat_e_next, ih, Nat.div_div_eq_div_mul, pow_succ]

/-- There is a further round exactly if the exponent has a further bit. -/
theorem PowState.e_iterate_pos_iff {s : PowState} {k : ℕ} :
    (next^[k] s).e > 0 ↔ k < s.e.toNat.size := by
  rw [e_pos_iff, toNat_e_iterate, Nat.lt_size, Nat.div_pos_iff]
  exact and_iff_right (by positivity)

/-- A round that the loop takes does not change what it returns. -/
theorem powLoop_next {s : PowState} (h : s.e > 0) : powLoop s.next = powLoop s := by
  conv_rhs => rw [powLoop, if_pos h]

/-- The loop returns the accumulator after as many rounds as the exponent has bits. -/
theorem powLoop_eq_iterate (s : PowState) :
    powLoop s = (PowState.next^[s.e.toNat.size] s).result := by
  have hrounds : ∀ k ≤ s.e.toNat.size, powLoop (PowState.next^[k] s) = powLoop s := by
    intro k hk
    induction k with
    | zero => rfl
    | succ k ih =>
      rw [Function.iterate_succ_apply', powLoop_next (PowState.e_iterate_pos_iff.mpr hk),
        ih (Nat.le_of_succ_le hk)]
  have hend : ¬ (PowState.next^[s.e.toNat.size] s).e > 0 :=
    fun h => lt_irrefl _ (PowState.e_iterate_pos_iff.mp h)
  rw [← hrounds _ le_rfl, powLoop, if_neg hend]

/-! ## The power -/

/-- A power through the square of its base. -/
theorem pow_eq_mul_square_pow {M : Type*} [Monoid M] (b : M) (e : ℕ) :
    b ^ e = (if e % 2 = 1 then b else 1) * (b * b) ^ (e / 2) := by
  have hsplit : e = e % 2 + 2 * (e / 2) := (Nat.mod_add_div e 2).symm
  have hbit : b ^ (e % 2) = if e % 2 = 1 then b else 1 := by
    rcases Nat.mod_two_eq_zero_or_one e with h | h
    · rw [h, pow_zero, if_neg zero_ne_one]
    · rw [h, pow_one, if_pos rfl]
  conv_lhs => rw [hsplit, pow_add, pow_mul, pow_two, hbit]

/-- The product of the accumulator with the power that is still to be taken. -/
def PowState.power (s : PowState) : Scalar := s.result * s.base ^ s.e.toNat

/-- The last bit of the exponent tells whether its number is odd. -/
theorem PowState.e_and_one_iff {s : PowState} : s.e &&& 1 = 1 ↔ s.e.toNat % 2 = 1 := by
  rw [← UInt64.toNat_inj, UInt64.toNat_and, UInt64.toNat_one, Nat.and_one_is_mod]

/-- A round keeps the product. -/
theorem PowState.power_next (s : PowState) : s.next.power = s.power := by
  rw [power, power, toNat_e_next, pow_eq_mul_square_pow s.base s.e.toNat, ← mul_assoc]
  congr 1
  simp only [next, e_and_one_iff, mul_ite, mul_one]

/-- No number of rounds changes the power that a state stands for. -/
theorem PowState.power_iterate (s : PowState) (k : ℕ) : (next^[k] s).power = s.power := by
  induction k with
  | zero => rfl
  | succ k ih => rw [Function.iterate_succ_apply', power_next, ih]

/-- The loop returns the product. -/
theorem powLoop_eq_power (s : PowState) : powLoop s = s.power := by
  have hend : (PowState.next^[s.e.toNat.size] s).e.toNat = 0 := by
    rw [PowState.toNat_e_iterate, Nat.div_eq_of_lt (Nat.lt_size_self _)]
  rw [powLoop_eq_iterate, ← s.power_iterate s.e.toNat.size, PowState.power, hend, pow_zero, mul_one]

/-- The loop computes the power. -/
theorem powU64_eq_pow (self : Scalar) (exp : UInt64) : powU64 self exp = self ^ exp.toNat := by
  rw [powU64, powLoop_eq_power, PowState.power, PowState.start, one_mul]

example : powU64 0 0 = 1 := by
  rw [powU64_eq_pow, UInt64.toNat_zero, pow_zero]

/-- **Powers.** The loop ends after as many rounds as the exponent has bits, which are at most
64, and the result is the product of as many copies of the scalar as the exponent says. -/
theorem powU64_spec (self : Scalar) (exp : UInt64) :
    (∃ rounds ≤ 64,
      (∀ k, (PowState.next^[k] (PowState.start self exp)).e > 0 ↔ k < rounds) ∧
      powU64 self exp = (PowState.next^[rounds] (PowState.start self exp)).result) ∧
    powU64 self exp = (List.replicate exp.toNat self).prod := by
  refine ⟨⟨exp.toNat.size, ?_, ?_, ?_⟩, ?_⟩
  · exact Nat.size_le.mpr exp.toNat_lt
  · intro k
    exact PowState.e_iterate_pos_iff
  · exact powLoop_eq_iterate _
  · rw [List.prod_replicate, powU64_eq_pow]

end Sigimora.Scalar
