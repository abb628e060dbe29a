import Sigimora.Crypto.Participants
import Sigimora.Crypto.Pedersen
import Sigimora.Math.ExponentCurve
import Sigimora.Math.Pairing

/-!
# Completeness and binding

What a dealer shares passes the check of the recipient, whatever coefficients the
dealer has chosen, and enough of the shares give the secret back. Conversely two
openings of one share determine the discrete logarithm of the second commitment
base, whatever the commitments are.
-/

namespace Sigimora.Pedersen

open Interpolation Polynomial

variable [Curve] {ε : Type}

/-- Share a secret among `n` participants, any `t` of whom determine it. -/
def Vss.share (ped : PedersenSetup) (secret : Scalar) (t n : ℕ) (coins : ℕ → Scalar) :
    VssPublic × List VssShare :=
  let rest := PrivatePoly.drawCoefficients t fun k => coins (k + 1)
  let f := secret :: rest.1
  let r := coins 0 :: rest.2
  let commitments := (f.zip r).map fun coeff => ped.commit coeff.1 coeff.2
  let shares := (participants n).map fun i =>
    let xi := Scalar.ofId i
    let sums := (f.zip r).foldl
      (fun (acc : (Scalar × Scalar) × Scalar) (coeff : Scalar × Scalar) =>
        ((acc.1.1 + coeff.1 * acc.2, acc.1.2 + coeff.2 * acc.2), acc.2 * xi)) ((0, 0), 1)
    { index := i, value := sums.1.1, blinding := sums.1.2 }
  ({ commitments }, shares)

/-- Share zero among `n` participants. -/
def Vss.shareZero (ped : PedersenSetup) (t n : ℕ) (coins : ℕ → Scalar) :
    VssPublic × List VssShare :=
  Vss.share ped 0 t n coins

omit [Curve] in
/-- The Lagrange coefficients at zero, by the copy of the canonical loop that this module has
to itself. -/
protected def lagrangeAtZero (quorum : List ParticipantId) : Outcome ε (List Scalar) :=
  quorum.zipIdx.mapM fun entry => do
    let xi := Scalar.ofId entry.1
    let fraction := quorum.zipIdx.foldl
      (fun (acc : Scalar × Scalar) (other : ParticipantId × ℕ) =>
        if entry.2 = other.2 then acc
        else
          let xj := Scalar.ofId other.1
          (acc.1 * -xj, acc.2 * (xi - xj))) (1, 1)
    let invDen ← Outcome.unwrap fraction.2.invert
    return fraction.1 * invDen

omit [Curve] in
/-- The secret behind the shares; a repeated index panics. -/
def Vss.reconstruct (shares : List VssShare) : Outcome ε Scalar := do
  let indices := shares.map VssShare.index
  let lambdas ← Pedersen.lagrangeAtZero indices
  return ((shares.zip lambdas).map fun entry => entry.1.value * entry.2).foldl (· + ·) 0

/-! ## Completeness -/

/-- Sharing a secret is sharing a drawn polynomial. -/
theorem Vss.share_eq (ped : PedersenSetup) (secret : Scalar) (t n : ℕ) (coins : ℕ → Scalar) :
    Vss.share ped secret t n coins =
      ((PrivatePoly.randomWithSecret secret t ped coins).commit,
        (participants n).map (PrivatePoly.randomWithSecret secret t ped coins).eval) := by
  refine Prod.ext (congrArg VssPublic.mk ?_) rfl
  exact List.map_zip_eq_zipWith

/-! ## Reconstruction -/

section Reconstruction

omit [Curve]

variable {quorum : List ParticipantId}

/-- On distinct indices the coefficients are the interpolation weights. -/
protected theorem lagrangeAtZero_eq (h : quorum.Nodup) :
    (Pedersen.lagrangeAtZero quorum : Outcome ε _) =
      .ok (quorum.map fun id => weight (Shamir.nodes quorum) (Scalar.ofId id)) :=
  Shamir.mapM_lagrangeFraction _ h

/-- A repeated index panics. -/
protected theorem lagrangeAtZero_of_not_nodup (h : ¬ quorum.Nodup) :
    (Pedersen.lagrangeAtZero quorum : Outcome ε (List Scalar)) =
      Outcome.panic "called `Option::unwrap()` on a `None` value" :=
  Shamir.mapM_lagrangeFraction_of_not_nodup _ h

/-- The products are added up as in the other combinations. -/
theorem Vss.foldl_products (shares : List VssShare) (lambdas : List Scalar) :
    ((shares.zip lambdas).map fun entry => entry.1.value * entry.2).foldl (· + ·) 0 =
      Shamir.weightedSum (shares.map VssShare.value) lambdas := by
  rw [Shamir.weightedSum, List.zip_map_left, List.foldl_map, List.foldl_map]
  simp only [Prod.map_fst, Prod.map_snd, id_eq, smul_eq_mul, mul_comm]

/-- Shares of different participants reconstruct the value at zero of a polynomial of lower
degree that they lie on. -/
theorem Vss.reconstruct_eq_ok {shares : List VssShare} {p : Scalar[X]}
    (hnodup : (shares.map VssShare.index).Nodup) (hdegree : p.degree < shares.length)
    (hvalue : ∀ share ∈ shares, share.value = p.eval (Scalar.ofId share.index)) :
    (Vss.reconstruct shares : Outcome ε Scalar) = .ok (p.eval 0) := by
  rw [Vss.reconstruct]
  simp only [Pedersen.lagrangeAtZero_eq hnodup, Outcome.ok_bind, Outcome.pure_eq_ok,
    Vss.foldl_products]
  rw [Shamir.weightedSum_eval hnodup hdegree hvalue]

/-- Shares with a repeated index panic. -/
theorem Vss.reconstruct_of_not_nodup {shares : List VssShare}
    (h : ¬ (shares.map VssShare.index).Nodup) :
    (Vss.reconstruct shares : Outcome ε Scalar) =
      Outcome.panic "called `Option::unwrap()` on a `None` value" := by
  simp only [Vss.reconstruct, Pedersen.lagrangeAtZero_of_not_nodup h]
  rfl

end Reconstruction

/-- **Reconstruction.** At least `t` of the shares, at different positions and in any order,
reconstruct the secret. -/
theorem Vss.reconstruct_share (ped : PedersenSetup) (secret : Scalar) {t : ℕ} (ht : 1 ≤ t)
    (n : ℕ) (coins : ℕ → Scalar)
    {positions : List (Fin (Vss.share ped secret t n coins).2.length)} (hnodup : positions.Nodup)
    (hsize : t ≤ positions.length) :
    (Vss.reconstruct (positions.map (Vss.share ped secret t n coins).2.get) :
      Outcome ε Scalar) = .ok secret := by
  let poly := PrivatePoly.randomWithSecret secret t ped coins
  have hdegree : poly.toPolynomial.degree < t := by
    have hbound := PrivatePoly.degree_randomWithSecret_lt secret t ped coins
    rwa [max_eq_left ht] at hbound
  conv_rhs => rw [← PrivatePoly.eval_zero_randomWithSecret secret t ped coins]
  refine Vss.reconstruct_eq_ok ?_ ?_ ?_
  · exact @nodup_map_get_participants _ poly.eval VssShare.index (fun _ => rfl) n positions hnodup
  · rw [List.length_map]
    exact lt_of_lt_of_le hdegree (by exact_mod_cast hsize)
  · intro share hshare
    have hmem : share ∈ (participants n).map poly.eval := by
      obtain ⟨position, _, rfl⟩ := List.mem_map.mp hshare
      exact List.get_mem _ position
    obtain ⟨i, _, rfl⟩ := List.mem_map.mp hmem
    exact PrivatePoly.eval_randomWithSecret secret t ped coins i

/-! ## Binding -/

/-- Two openings that pass at one index have different blindings, and these determine the
discrete logarithm of `h`. -/
theorem VssPublic.binding {vss : VssPublic} {index : ParticipantId} {ped : PedersenSetup}
    (hg : ped.g ≠ 0) {v ρ v' ρ' : Scalar} (hne : (v, ρ) ≠ (v', ρ'))
    (hopen : vss.verifyShare index v ρ ped = true)
    (hopen' : vss.verifyShare index v' ρ' ped = true) :
    ρ ≠ ρ' ∧ ped.h = ((v - v') / (ρ' - ρ)) • ped.g := by
  rw [VssPublic.verifyShare_iff] at hopen hopen'
  have hequal : v • ped.g + ρ • ped.h = v' • ped.g + ρ' • ped.h := hopen.trans hopen'.symm
  have hmoved : (v - v') • ped.g = (ρ' - ρ) • ped.h := by
    rw [sub_smul, sub_smul, sub_eq_sub_iff_add_eq_add, hequal, add_comm]
  have hblinding : ρ ≠ ρ' := by
    rintro rfl
    rw [sub_self, zero_smul] at hmoved
    have hvalue : v - v' = 0 := (smul_eq_zero.mp hmoved).resolve_right hg
    exact hne (by rw [sub_eq_zero.mp hvalue])
  refine ⟨hblinding, ?_⟩
  have hdiff : ρ' - ρ ≠ 0 := sub_ne_zero.mpr hblinding.symm
  rw [div_eq_inv_mul, mul_smul, hmoved, inv_smul_smul₀ hdiff]

/-- **Pedersen sharing.** Every share of both dealers verifies, the two evaluate alike, and two
openings that pass determine the discrete logarithm of `h`. Both constructors of a setup take
the generator for `g`. -/
theorem sharing_complete_and_binding :
    (∀ (poly : PrivatePoly) (x : ParticipantId), poly.commit.verifyShare x (poly.eval x).value
      (poly.eval x).blinding poly.pedersen = true) ∧
    (∀ (ped : PedersenSetup) (secret : Scalar) (t n : ℕ) (coins : ℕ → Scalar),
      ∀ share ∈ (Vss.share ped secret t n coins).2,
        (Vss.share ped secret t n coins).1.verifyShare share.index share.value share.blinding
          ped = true ∧
        share = (PrivatePoly.randomWithSecret secret t ped coins).eval share.index) ∧
    ∀ (vss : VssPublic) (index : ParticipantId) (ped : PedersenSetup) (v ρ v' ρ' : Scalar),
      ped.g ≠ 0 → (v, ρ) ≠ (v', ρ') → vss.verifyShare index v ρ ped = true →
      vss.verifyShare index v' ρ' ped = true →
        ρ ≠ ρ' ∧ ped.h = ((v - v') / (ρ' - ρ)) • ped.g := by
  refine ⟨PrivatePoly.verifyShare_commit, ?_, ?_⟩
  · intro ped secret t n coins share hshare
    rw [Vss.share_eq] at hshare ⊢
    obtain ⟨i, _, rfl⟩ := List.mem_map.mp hshare
    exact ⟨PrivatePoly.verifyShare_commit _ i, rfl⟩
  · intro vss index ped v ρ v' ρ' hg hne hopen hopen'
    exact VssPublic.binding hg hne hopen hopen'

omit [Curve] in
/-- Two openings of the commitment to zero, when `h` is twice the generator. -/
theorem sharing_binding_twice :
    letI := exponentCurve
    (0 : Scalar) ≠ 1 ∧ (2 : Scalar) • (G1Point.generator : G1Point) =
      ((0 - -2 : Scalar) / (1 - 0)) • G1Point.generator := by
  let := exponentCurve
  exact sharing_complete_and_binding.2.2 ⟨[0]⟩ 1
    ⟨G1Point.generator, (2 : Scalar) • G1Point.generator⟩ 0 0 (-2) 1 G1Point.generator_ne_zero
    (by decide) (by decide +kernel) (by decide +kernel)

end Sigimora.Pedersen
