import Mathlib.LinearAlgebra.Span.Basic
import Sigimora.Crypto.SecretSharing
import Sigimora.Math.Pairing

/-!
# Feldman verifiable secret sharing

A dealer publishes the multiples of the generator by its coefficients. A share
is checked in the exponent, so exactly the value of the polynomial passes.
-/

namespace Sigimora.Feldman

open Shamir

variable {ε : Type}

/-- A dealer's polynomial, constant term first. -/
structure PrivatePoly where
  coeffs : List Scalar

namespace PrivatePoly

/-- A random polynomial of `t` coefficients with the given constant term. -/
def randomWithSecret (secret : Scalar) (t : ℕ) (coins : ℕ → Scalar) : PrivatePoly where
  coeffs := secret :: (List.range (t - 1)).map coins

/-- A random polynomial of `t` coefficients that vanishes at zero. -/
def randomWithZeroConstant (t : ℕ) (coins : ℕ → Scalar) : PrivatePoly :=
  randomWithSecret 0 t coins

/-- The share for the participant `x`; a polynomial without coefficients panics. -/
def eval (poly : PrivatePoly) (x : ParticipantId) : Outcome ε Share := do
  let first ← Outcome.index poly.coeffs 0
  return {
    index := x
    value := (poly.coeffs.zipIdx.drop 1).foldl
      (fun result entry => result + Horner.raise (Scalar.ofId x) entry.2 entry.1) first }

end PrivatePoly

variable [Curve]

/-- The published coefficients. -/
structure PublicPoly where
  commitments : List G2Point

/-- Publish the coefficients in the exponent. -/
def PrivatePoly.commit (poly : PrivatePoly) : PublicPoly where
  commitments := poly.coeffs.map fun coeff => coeff • G2Point.generator

namespace PublicPoly

/-- The value at `x` in the exponent. -/
def eval (poly : PublicPoly) (x : ParticipantId) : G2Point :=
  poly.commitments.zipIdx.foldl
    (fun result entry => result + Horner.raise (Scalar.ofId x) entry.2 entry.1) 0

/-- Check a share against the commitments. -/
def verifyShare (poly : PublicPoly) (share : Share) : Bool :=
  let lhs := share.value • G2Point.generator
  let rhs := poly.eval share.index
  lhs == rhs

end PublicPoly

variable {poly : PrivatePoly}

omit [Curve] in
/-- A polynomial with coefficients is evaluated by Horner's rule. -/
theorem PrivatePoly.eval_eq_ok (h : poly.coeffs ≠ []) (x : ParticipantId) :
    (poly.eval x : Outcome ε Share) = .ok ⟨x, Horner.eval (Scalar.ofId x) poly.coeffs⟩ := by
  obtain ⟨coeffs⟩ := poly
  obtain ⟨c, rest, rfl⟩ := List.exists_cons_of_ne_nil h
  have hfirst : (Outcome.index (c :: rest) 0 : Outcome ε Scalar) = .ok c := rfl
  rw [eval, hfirst, Outcome.ok_bind, Horner.foldl_raise_tail, Outcome.pure_eq_ok]

omit [Curve] in
/-- The share that a polynomial with a given constant term hands out. -/
theorem PrivatePoly.randomWithSecret_eval (secret : Scalar) (t : ℕ) (coins : ℕ → Scalar)
    (x : ParticipantId) :
    ((randomWithSecret secret t coins).eval x : Outcome ε Share) =
      .ok ⟨x, (sharingPolynomial secret t coins).eval (Scalar.ofId x)⟩ := by
  have hcoeffs : (randomWithSecret secret t coins).coeffs ≠ [] := List.cons_ne_nil _ _
  rw [eval_eq_ok hcoeffs, sharingPolynomial, Horner.eval_toPolynomial]
  rfl

/-- The commitments evaluate to the multiple of the generator by the value. -/
theorem PublicPoly.eval_commit (poly : PrivatePoly) (x : ParticipantId) :
    poly.commit.eval x =
      Horner.eval (Scalar.ofId x) poly.coeffs • (G2Point.generator : G2Point) := by
  have hmap := Horner.eval_map (LinearMap.toSpanSingleton Scalar G2Point G2Point.generator)
    (Scalar.ofId x) poly.coeffs
  rw [eval, Horner.foldl_raise, pow_zero, one_smul, zero_add]
  exact hmap

/-- **Exact verification.** A share passes exactly if its value is that of the polynomial. -/
theorem verifyShare_commit_iff (h : poly.coeffs ≠ []) (share : Share) :
    poly.commit.verifyShare share = true ↔
      ∃ own, (poly.eval share.index : Outcome ε Share) = .ok own ∧ share.value = own.value := by
  have hexact : poly.commit.verifyShare share = true ↔
      share.value = Horner.eval (Scalar.ofId share.index) poly.coeffs := by
    simp only [PublicPoly.verifyShare, PublicPoly.eval_commit, beq_iff_eq]
    exact (smul_left_injective Scalar G2Point.generator_ne_zero).eq_iff
  rw [hexact, PrivatePoly.eval_eq_ok h]
  constructor
  · intro hvalue
    exact ⟨_, rfl, hvalue⟩
  · rintro ⟨own, hown, hvalue⟩
    cases hown
    exact hvalue

end Sigimora.Feldman
