import Mathlib.LinearAlgebra.Span.Basic

/-!
# Schnorr proofs

Proofs of knowledge of a discrete logarithm, in any module over a field. A prover
commits to a nonce, is given a challenge, and answers with a scalar; a verifier checks
one equation. Where the challenges come from does not matter here.
-/

namespace Schnorr

variable {F M : Type*} [Field F] [AddCommGroup M] [Module F M]

/-- The equation that a verifier checks for the statement `P` and the commitment `R`. -/
def Accepts (g P R : M) (c s : F) : Prop := s • g = R + c • P

/-- The response that a prover with the secret `x` gives to the challenge `c`. -/
def response (x r c : F) : F := r + c * x

/-- A prover that knows the discrete logarithm is accepted. -/
theorem accepts_response (g : M) (x r c : F) :
    Accepts g (x • g) (r • g) c (response x r c) := by
  rw [Accepts, response, add_smul, mul_smul]

/-- A prover that answers for another secret and another challenge is accepted exactly when
the products of challenge and secret agree. -/
theorem accepts_response_iff {g : M} (hg : g ≠ 0) {x y r c d : F} :
    Accepts g (y • g) (r • g) d (response x r c) ↔ c * x = d * y := by
  rw [Accepts, response, add_smul, smul_smul, add_right_inj]
  exact (smul_left_injective F hg).eq_iff

/-- **Special soundness.** Two accepted responses to different challenges determine the
discrete logarithm of the statement. -/
theorem Accepts.extract {g P R : M} {c c' s s' : F} (h : Accepts g P R c s)
    (h' : Accepts g P R c' s') (hne : c ≠ c') : P = ((s - s') / (c - c')) • g := by
  have hmoved : (s - s') • g = (c - c') • P := by
    rw [sub_smul, sub_smul, h, h', add_sub_add_left_eq_sub]
  rw [div_eq_inv_mul, mul_smul, hmoved, inv_smul_smul₀ (sub_ne_zero.mpr hne)]

/-- A commitment to the response itself is accepted exactly when the statement drops out. -/
theorem accepts_self_iff {g P : M} {c s : F} :
    Accepts g P (s • g) c s ↔ c = 0 ∨ P = 0 := by
  rw [Accepts, left_eq_add, smul_eq_zero]

end Schnorr
