import Mathlib.LinearAlgebra.Span.Basic
import Sigimora.Crypto.Shamir
import Sigimora.Library.Horner

/-!
# Pedersen verifiable secret sharing

A dealer holds two polynomials of the same degree, one for the value and one for
the blinding, and publishes a Pedersen commitment to each pair of coefficients.
A share is the pair of evaluations at the recipient's id. The values drawn from
the random number generator are an argument: `coins k` is the `k`-th draw of
the call.
-/

namespace Sigimora.Pedersen

variable [Curve]

/-- The two commitment bases. -/
structure PedersenSetup where
  g : G1Point
  h : G1Point

/-- The setup that all parties compute. -/
def PedersenSetup.deterministic : PedersenSetup where
  g := G1Point.generator
  h := hashToG1 (byteLiteral "BLS_PEDERSEN_H_NUMS_2024") (byteLiteral "SIGIMORA")

/-- The commitment to the value `v` with blinding `r`. -/
def PedersenSetup.commit (ped : PedersenSetup) (v r : Scalar) : G1Point := v • ped.g + r • ped.h

/-- The published commitments, constant terms first. -/
structure VssPublic where
  commitments : List G1Point

/-- A share with its blinding. -/
structure VssShare where
  index : ParticipantId
  value : Scalar
  blinding : Scalar
  deriving DecidableEq

/-- Check an opening at `index` against the commitments. -/
def VssPublic.verifyShare (vss : VssPublic) (index : ParticipantId) (value blinding : Scalar)
    (ped : PedersenSetup) : Bool :=
  let lhs := ped.commit value blinding
  let x := Scalar.ofId index
  let rhs := vss.commitments.foldl
    (fun (acc : G1Point × Scalar) ck => (acc.1 + acc.2 • ck, acc.2 * x)) (0, 1)
  lhs == rhs.1

/-- A dealer's polynomials and the setup it commits under. -/
structure PrivatePoly where
  coeffsF : List Scalar
  coeffsR : List Scalar
  pedersen : PedersenSetup

namespace PrivatePoly

/-- The draws of the loop `for _ in 1..t`, which pushes one coefficient on each list. -/
def drawCoefficients (t : ℕ) (coins : ℕ → Scalar) : List Scalar × List Scalar :=
  ((List.range (t - 1)).map fun k => coins (2 * k),
    (List.range (t - 1)).map fun k => coins (2 * k + 1))

/-- A random polynomial of `t` coefficients with the given constant term. -/
def randomWithSecret (secret : Scalar) (t : ℕ) (ped : PedersenSetup) (coins : ℕ → Scalar) :
    PrivatePoly :=
  let rest := drawCoefficients t fun k => coins (k + 1)
  { coeffsF := secret :: rest.1, coeffsR := coins 0 :: rest.2, pedersen := ped }

/-- A random polynomial of `t` coefficients that vanishes at zero, blinding included. -/
def randomWithZeroConstant (t : ℕ) (ped : PedersenSetup) (coins : ℕ → Scalar) : PrivatePoly :=
  let rest := drawCoefficients t coins
  { coeffsF := 0 :: rest.1, coeffsR := 0 :: rest.2, pedersen := ped }

/-- The share for the participant `x`, by the loop with a running power. -/
def eval (poly : PrivatePoly) (x : ParticipantId) : VssShare :=
  let xi := Scalar.ofId x
  let sums := (poly.coeffsF.zip poly.coeffsR).foldl
    (fun (acc : (Scalar × Scalar) × Scalar) (coeff : Scalar × Scalar) =>
      ((acc.1.1 + coeff.1 * acc.2, acc.1.2 + coeff.2 * acc.2), acc.2 * xi)) ((0, 0), 1)
  { index := x, value := sums.1.1, blinding := sums.1.2 }

/-- The commitments to the coefficients. -/
def commit (poly : PrivatePoly) : VssPublic where
  commitments := List.zipWith poly.pedersen.commit poly.coeffsF poly.coeffsR

/-- The value polynomial as an element of the polynomial ring. -/
noncomputable def toPolynomial (poly : PrivatePoly) : Polynomial Scalar :=
  Horner.toPolynomial poly.coeffsF

end PrivatePoly

/-! ## Verification -/

/-- A share verifies when its commitment is the evaluated commitment polynomial. -/
theorem VssPublic.verifyShare_iff {vss : VssPublic} {index : ParticipantId}
    {value blinding : Scalar} {ped : PedersenSetup} :
    vss.verifyShare index value blinding ped = true ↔
      ped.commit value blinding = Horner.eval (Scalar.ofId index) vss.commitments := by
  simp only [VssPublic.verifyShare, Horner.foldl_runningPower, zero_add, one_smul, beq_iff_eq]

namespace PrivatePoly

omit [Curve] in
/-- The evaluation loop computes both Horner sums over the zipped coefficients. -/
theorem foldl_eval (x : Scalar) (coeffs : List (Scalar × Scalar)) (f r power : Scalar) :
    coeffs.foldl (fun (acc : (Scalar × Scalar) × Scalar) (coeff : Scalar × Scalar) =>
        ((acc.1.1 + coeff.1 * acc.2, acc.1.2 + coeff.2 * acc.2), acc.2 * x)) ((f, r), power) =
      ((f + power * Horner.eval x (coeffs.map Prod.fst),
        r + power * Horner.eval x (coeffs.map Prod.snd)), power * x ^ coeffs.length) := by
  induction coeffs generalizing f r power with
  | nil => simp
  | cons coeff coeffs ih =>
    rw [List.foldl_cons, ih]
    simp only [List.map_cons, Horner.eval_cons, List.length_cons, smul_eq_mul, Prod.mk.injEq]
    refine ⟨⟨?_, ?_⟩, ?_⟩ <;> ring

/-- The value of a share is that of the first polynomial at the id. -/
theorem eval_value {poly : PrivatePoly} (h : poly.coeffsF.length = poly.coeffsR.length)
    (x : ParticipantId) : (poly.eval x).value = Horner.eval (Scalar.ofId x) poly.coeffsF := by
  simp only [eval, foldl_eval, zero_add, one_mul, List.map_fst_zip h.le]

/-- The commitments evaluate to the commitment to the share. -/
theorem eval_commitments (poly : PrivatePoly) (x : ParticipantId) :
    Horner.eval (Scalar.ofId x) poly.commit.commitments =
      poly.pedersen.commit (poly.eval x).value (poly.eval x).blinding := by
  -- both loops run over the zipped lists, which may be shorter than the lists of coefficients
  let fs := (poly.coeffsF.zip poly.coeffsR).map Prod.fst
  let rs := (poly.coeffsF.zip poly.coeffsR).map Prod.snd
  have hvalue : (poly.eval x).value = Horner.eval (Scalar.ofId x) fs := by
    simp only [eval, foldl_eval, zero_add, one_mul, fs]
  have hblinding : (poly.eval x).blinding = Horner.eval (Scalar.ofId x) rs := by
    simp only [eval, foldl_eval, zero_add, one_mul, rs]
  have hcommit : poly.commit.commitments = List.zipWith poly.pedersen.commit fs rs := by
    rw [List.zipWith_map, List.zipWith_self, commit, ← List.map_uncurry_zip_eq_zipWith]
    rfl
  rw [hcommit, hvalue, hblinding]
  exact Horner.eval_zipWith (LinearMap.toSpanSingleton Scalar G1Point poly.pedersen.g)
    (LinearMap.toSpanSingleton Scalar G1Point poly.pedersen.h) (Scalar.ofId x) fs rs
    (by simp [fs, rs])

/-- **Completeness.** A dealer's shares verify against its commitments, also if its lists of
coefficients differ in length. -/
theorem verifyShare_commit (poly : PrivatePoly) (x : ParticipantId) :
    poly.commit.verifyShare x (poly.eval x).value (poly.eval x).blinding poly.pedersen = true := by
  rw [VssPublic.verifyShare_iff, eval_commitments]

/-! ## Drawn polynomials -/

/-- Both polynomials have as many coefficients as the threshold, but at least one. -/
theorem length_randomWithSecret (secret : Scalar) (t : ℕ) (ped : PedersenSetup)
    (coins : ℕ → Scalar) :
    (randomWithSecret secret t ped coins).coeffsF.length = max t 1 ∧
      (randomWithSecret secret t ped coins).coeffsR.length = max t 1 := by
  simp only [randomWithSecret, drawCoefficients, List.length_cons, List.length_map,
    List.length_range]
  omega

/-- Both polynomials of a refresh have as many coefficients as the threshold, at least one. -/
theorem length_randomWithZeroConstant (t : ℕ) (ped : PedersenSetup) (coins : ℕ → Scalar) :
    (randomWithZeroConstant t ped coins).coeffsF.length = max t 1 ∧
      (randomWithZeroConstant t ped coins).coeffsR.length = max t 1 := by
  simp only [randomWithZeroConstant, drawCoefficients, List.length_cons, List.length_map,
    List.length_range]
  omega

/-- Sharing a secret takes a polynomial of degree below the threshold. -/
theorem degree_randomWithSecret_lt (secret : Scalar) (t : ℕ) (ped : PedersenSetup)
    (coins : ℕ → Scalar) :
    (randomWithSecret secret t ped coins).toPolynomial.degree < (max t 1 : ℕ) := by
  rw [← (length_randomWithSecret secret t ped coins).1]
  exact Horner.degree_toPolynomial_lt _

/-- Sharing zero takes a polynomial of degree below the threshold. -/
theorem degree_randomWithZeroConstant_lt (t : ℕ) (ped : PedersenSetup) (coins : ℕ → Scalar) :
    (randomWithZeroConstant t ped coins).toPolynomial.degree < (max t 1 : ℕ) := by
  rw [← (length_randomWithZeroConstant t ped coins).1]
  exact Horner.degree_toPolynomial_lt _

/-- The shares of a secret lie on its polynomial. -/
theorem eval_randomWithSecret (secret : Scalar) (t : ℕ) (ped : PedersenSetup)
    (coins : ℕ → Scalar) (x : ParticipantId) :
    ((randomWithSecret secret t ped coins).eval x).value =
      (randomWithSecret secret t ped coins).toPolynomial.eval (Scalar.ofId x) := by
  have hlength := length_randomWithSecret secret t ped coins
  rw [eval_value (hlength.1.trans hlength.2.symm), toPolynomial, Horner.eval_toPolynomial]

/-- The shares of zero lie on its polynomial. -/
theorem eval_randomWithZeroConstant (t : ℕ) (ped : PedersenSetup) (coins : ℕ → Scalar)
    (x : ParticipantId) : ((randomWithZeroConstant t ped coins).eval x).value =
      (randomWithZeroConstant t ped coins).toPolynomial.eval (Scalar.ofId x) := by
  have hlength := length_randomWithZeroConstant t ped coins
  rw [eval_value (hlength.1.trans hlength.2.symm), toPolynomial, Horner.eval_toPolynomial]

/-- The polynomial takes the secret at zero. -/
@[simp] theorem eval_zero_randomWithSecret (secret : Scalar) (t : ℕ) (ped : PedersenSetup)
    (coins : ℕ → Scalar) : (randomWithSecret secret t ped coins).toPolynomial.eval 0 = secret := by
  rw [toPolynomial, Horner.eval_toPolynomial]
  exact Horner.eval_zero_cons _ _

/-- The polynomial of a refresh vanishes at zero. -/
@[simp] theorem eval_zero_randomWithZeroConstant (t : ℕ) (ped : PedersenSetup)
    (coins : ℕ → Scalar) : (randomWithZeroConstant t ped coins).toPolynomial.eval 0 = 0 := by
  rw [toPolynomial, Horner.eval_toPolynomial]
  exact Horner.eval_zero_cons _ _

end PrivatePoly

end Sigimora.Pedersen
