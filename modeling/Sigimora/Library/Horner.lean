import Mathlib.Algebra.Polynomial.Module.Basic
import Mathlib.Algebra.Polynomial.Degree.Lemmas

/-!
# Coefficient lists

A list of coefficients, constant term first, evaluated at a point. The
coefficients lie in a module over the ring of the point, so that one
definition covers polynomials with scalar coefficients and the commitments to
such coefficients. Programs evaluate with a running power of the point, or with
one multiplication after another; both loops are reduced to Horner's rule.
-/

namespace Horner

open Polynomial

variable {F M N : Type*} [CommRing F] [AddCommGroup M] [Module F M] [AddCommGroup N] [Module F N]

/-- The value at `x` of the coefficient list, by Horner's rule. -/
def eval (x : F) (coeffs : List M) : M := coeffs.foldr (fun c acc => c + x • acc) 0

/-- Without coefficients the value is zero. -/
@[simp] theorem eval_nil (x : F) : eval x ([] : List M) = 0 := rfl

/-- One step of Horner's rule. -/
@[simp] theorem eval_cons (x : F) (c : M) (coeffs : List M) :
    eval x (c :: coeffs) = c + x • eval x coeffs := rfl

/-- The loop that adds `coefficient * power` and then raises the power. -/
theorem foldl_runningPower (x : F) (coeffs : List M) (acc : M) (power : F) :
    coeffs.foldl (fun (s : M × F) c => (s.1 + s.2 • c, s.2 * x)) (acc, power) =
      (acc + power • eval x coeffs, power * x ^ coeffs.length) := by
  induction coeffs generalizing acc power with
  | nil => simp
  | cons c coeffs ih =>
    rw [List.foldl_cons, ih, eval_cons, List.length_cons, smul_add, ← mul_smul, pow_succ']
    exact Prod.ext (add_assoc _ _ _) (mul_assoc _ _ _)

/-- The loop that multiplies a coefficient by the point `power` times. -/
def raise (x : F) (power : ℕ) (c : M) : M := (List.range power).foldl (fun term _ => x • term) c

/-- Repeated multiplication by the point is a power of it. -/
theorem raise_eq (x : F) (power : ℕ) (c : M) : raise x power c = x ^ power • c := by
  unfold raise
  induction power with
  | zero => simp
  | succ power ih =>
    rw [List.range_succ, List.foldl_append, ih, List.foldl_cons, List.foldl_nil, smul_smul,
      pow_succ']

/-- The loop that adds the coefficients, each raised to its position. -/
theorem foldl_raise (x : F) (coeffs : List M) (start : ℕ) (acc : M) :
    (coeffs.zipIdx start).foldl (fun sum entry => sum + raise x entry.2 entry.1) acc =
      acc + x ^ start • eval x coeffs := by
  induction coeffs generalizing start acc with
  | nil => simp
  | cons c coeffs ih =>
    rw [List.zipIdx_cons, List.foldl_cons, ih, raise_eq, eval_cons, smul_add, smul_smul, pow_succ,
      add_assoc]

/-- The same loop when it starts with the constant term. -/
theorem foldl_raise_tail (x : F) (c : M) (coeffs : List M) :
    ((c :: coeffs).zipIdx.drop 1).foldl (fun sum entry => sum + raise x entry.2 entry.1) c =
      eval x (c :: coeffs) := by
  rw [List.zipIdx_cons, List.drop_one, List.tail_cons, foldl_raise, eval_cons, zero_add, pow_one]

/-- Evaluation commutes with linear maps of the coefficients. -/
theorem eval_map (φ : M →ₗ[F] N) (x : F) (coeffs : List M) :
    eval x (coeffs.map φ) = φ (eval x coeffs) := by
  induction coeffs with
  | nil => simp
  | cons c coeffs ih => rw [List.map_cons, eval_cons, ih, eval_cons, map_add, map_smul]

/-- Evaluation of coefficients combined position by position. -/
theorem eval_zipWith (φ : F →ₗ[F] M) (ψ : F →ₗ[F] M) (x : F) :
    ∀ as bs : List F, as.length = bs.length →
      eval x (List.zipWith (fun a b => φ a + ψ b) as bs) = φ (eval x as) + ψ (eval x bs)
  | [], [], _ => by simp
  | a :: as, b :: bs, h => by
    have ih := eval_zipWith φ ψ x as bs (by simpa using h)
    simp only [List.zipWith_cons_cons, eval_cons, ih, map_add, map_smul, smul_add]
    exact add_add_add_comm _ _ _ _

/-- The polynomial with the given coefficients. -/
noncomputable def toPolynomial (coeffs : List F) : F[X] :=
  coeffs.foldr (fun c p => C c + X * p) 0

/-- No coefficients make the polynomial zero. -/
@[simp] theorem toPolynomial_nil : toPolynomial ([] : List F) = 0 := rfl

/-- The first coefficient is the constant term. -/
@[simp] theorem toPolynomial_cons (c : F) (coeffs : List F) :
    toPolynomial (c :: coeffs) = C c + X * toPolynomial coeffs := rfl

/-- Horner's rule evaluates the polynomial of the coefficients. -/
@[simp] theorem eval_toPolynomial (x : F) (coeffs : List F) :
    (toPolynomial coeffs).eval x = eval x coeffs := by
  induction coeffs with
  | nil => simp
  | cons c coeffs ih => simp [ih]

/-- A list of `k` coefficients has degree below `k`. -/
theorem degree_toPolynomial_lt [Nontrivial F] (coeffs : List F) :
    (toPolynomial coeffs).degree < coeffs.length := by
  rw [degree_lt_iff_coeff_zero]
  induction coeffs with
  | nil => intro m _; simp
  | cons c coeffs ih =>
    intro m hm
    rw [List.length_cons] at hm
    obtain ⟨m, rfl⟩ : ∃ k, m = k + 1 := ⟨m - 1, by omega⟩
    rw [toPolynomial_cons, coeff_add, coeff_C_succ, coeff_X_mul, zero_add]
    exact ih m (by omega)

/-- The list holds the coefficients of its polynomial. -/
theorem coeff_toPolynomial (coeffs : List F) (i : ℕ) :
    (toPolynomial coeffs).coeff i = coeffs[i]?.getD 0 := by
  induction coeffs generalizing i with
  | nil => simp
  | cons c coeffs ih =>
    cases i with
    | zero => simp
    | succ i => simp [coeff_C_succ, coeff_X_mul, ih]

/-- Lists of one length with the same polynomial are the same. -/
theorem toPolynomial_inj {as bs : List F} (hlength : as.length = bs.length)
    (h : toPolynomial as = toPolynomial bs) : as = bs := by
  refine List.ext_getElem hlength fun i hi hi' => ?_
  have hcoeff := congrArg (coeff · i) h
  simpa [coeff_toPolynomial, hi, hi'] using hcoeff

/-- A polynomial of degree below `k` is given by its first `k` coefficients. -/
theorem toPolynomial_coeffs {p : F[X]} {k : ℕ} (hp : p.degree < k) :
    toPolynomial ((List.range k).map p.coeff) = p := by
  ext i
  rw [coeff_toPolynomial, List.getElem?_map]
  by_cases hi : i < k
  · simp [hi]
  · have hzero := (degree_lt_iff_coeff_zero p k).mp hp i (not_lt.mp hi)
    simp [hi, hzero]

/-- The value at zero is the constant term. -/
theorem eval_zero_cons (c : M) (coeffs : List M) : eval (0 : F) (c :: coeffs) = c := by
  simp

end Horner
