import Sigimora.Crypto.Feldman
import Sigimora.Math.ExponentCurve

/-!
# FROST

The aggregation of partial signatures and the refresh of a single share. FROST
has Lagrange coefficients of its own, which put one in the place of an inverse
that does not exist.
-/

namespace Sigimora.Frost

open Shamir Feldman

variable [Curve]

/-- A share of the group secret with its public key. -/
structure SigningKey where
  share : Share
  ipk : G2Point

structure PartialSignature where
  signerId : ParticipantId
  sigma : G1Point

structure FrostSignature where
  sigma : G1Point
  signers : List ParticipantId
  epoch : UInt64
  transcript : List UInt8

/-! ## Aggregation -/

omit [Curve] in
/-- Numerator and denominator of the coefficient of the index `xi` at position `i`. -/
def lagrangeFraction (indices : List ParticipantId) (i : ℕ) (xi : Scalar) : Scalar × Scalar :=
  indices.zipIdx.foldl (fun (acc : Scalar × Scalar) (entry : ParticipantId × ℕ) =>
    if i = entry.2 then acc
    else
      let xj := Scalar.ofId entry.1
      (acc.1 * xj, acc.2 * (xj - xi))) (1, 1)

omit [Curve] in
/-- The Lagrange coefficients at zero; a denominator without an inverse is ignored. -/
def lagrangeCoefficients (indices : List ParticipantId) : List Scalar :=
  indices.zipIdx.map fun entry =>
    let fraction := lagrangeFraction indices entry.2 (Scalar.ofId entry.1)
    fraction.1 * fraction.2.invert.getD 1

/-- The digest that binds a signature to its session. -/
def computeSessionTranscript (msg : List UInt8) (epoch : UInt64) (signers : List ParticipantId) :
    List UInt8 :=
  Curve.sha256 (msg ++ ByteString.littleEndian 8 epoch.toNat ++
    signers.flatMap fun s => ByteString.littleEndian 2 s.toNat)

/-- Combine partial signatures for the signers whose keys are passed. -/
def aggregate (partials : List PartialSignature) (signingKeys : List SigningKey)
    (threshold : ℕ) : Outcome CryptoError FrostSignature :=
  if partials.length < threshold then
    Outcome.fail (.invalidParameter
      s!"need at least {threshold} partials, got {partials.length}")
  else
    let indices := partials.map PartialSignature.signerId
    let lambdas := lagrangeCoefficients indices
    .ok {
      sigma := weightedSum (partials.map PartialSignature.sigma) lambdas
      signers := signingKeys.map fun sk => sk.share.index
      epoch := 1
      transcript := [] }

/-- Combine partial signatures, however many there are. -/
def aggregateSimple (partials : List PartialSignature) : Outcome CryptoError FrostSignature :=
  if partials.isEmpty then Outcome.fail (.invalidParameter "no partials")
  else
    let indices := partials.map PartialSignature.signerId
    let lambdas := lagrangeCoefficients indices
    let epoch := 1
    .ok {
      sigma := weightedSum (partials.map PartialSignature.sigma) lambdas
      signers := indices
      epoch
      transcript := computeSessionTranscript (byteLiteral "default") epoch indices }

/-! ## Refresh -/

/-- Add the value of a random polynomial that vanishes at zero, and publish the polynomial. -/
def mcpRefreshShare {ε : Type} (currentShare : Share) (coins : ℕ → Scalar) :
    Outcome ε (Share × PublicPoly) := do
  let refreshPoly := PrivatePoly.randomWithZeroConstant 2 coins
  let refreshShare ← refreshPoly.eval currentShare.index
  let newShare := { index := currentShare.index, value := currentShare.value + refreshShare.value }
  return (newShare, refreshPoly.commit)

/-- Check the difference of two shares against the commitments. -/
def verifyRefreshShare (oldShare newShare : Share) (commitment : PublicPoly) : Bool :=
  let verifiedShare := commitment.eval oldShare.index
  let expected := (newShare.value - oldShare.value) • G2Point.generator
  expected == verifiedShare

/-- Whether the committed polynomial vanishes at zero. -/
def verifyZeroConstant (commitment : PublicPoly) : Bool :=
  match commitment.commitments.head? with
  | some c => c == 0
  | none => false

/-- A refreshed share passes both checks. -/
theorem mcpRefreshShare_verifies {ε : Type} (currentShare : Share) (coins : ℕ → Scalar) :
    ∃ newShare commitment,
      (mcpRefreshShare currentShare coins : Outcome ε (Share × PublicPoly)) =
        .ok (newShare, commitment) ∧
      verifyRefreshShare currentShare newShare commitment = true ∧
      verifyZeroConstant commitment = true := by
  let poly := PrivatePoly.randomWithZeroConstant 2 coins
  have hne : poly.coeffs ≠ [] := List.cons_ne_nil _ _
  let delta := Horner.eval (Scalar.ofId currentShare.index) poly.coeffs
  refine ⟨⟨currentShare.index, currentShare.value + delta⟩, poly.commit, ?_, ?_, ?_⟩
  · rw [mcpRefreshShare, PrivatePoly.eval_eq_ok hne, Outcome.ok_bind, Outcome.pure_eq_ok]
  · rw [verifyRefreshShare, beq_iff_eq, PublicPoly.eval_commit, add_sub_cancel_left]
  · have hfirst : poly.commit.commitments.head? = some ((0 : Scalar) • G2Point.generator) := rfl
    rw [verifyZeroConstant, hfirst, beq_iff_eq, zero_smul]

/-- **Feldman sharing.** Exactly the right shares pass, and so does every refreshed one. -/
theorem shares_verify_iff :
    (∀ poly : PrivatePoly, poly.coeffs ≠ [] → ∀ share : Share,
      poly.commit.verifyShare share = true ↔
        ∃ own, (poly.eval share.index : Outcome CryptoError Share) = .ok own ∧
          share.value = own.value) ∧
    ∀ (currentShare : Share) (coins : ℕ → Scalar), ∃ newShare commitment,
      (mcpRefreshShare currentShare coins : Outcome CryptoError (Share × PublicPoly)) =
        .ok (newShare, commitment) ∧
      verifyRefreshShare currentShare newShare commitment = true ∧
      verifyZeroConstant commitment = true :=
  ⟨fun _ hne share => verifyShare_commit_iff hne share, mcpRefreshShare_verifies⟩

omit [Curve] in
/-- The polynomial `3 + 4x` and its value at the second participant. -/
theorem shares_verify_iff_linear :
    letI := exponentCurve
    (⟨[3, 4]⟩ : PrivatePoly).commit.verifyShare ⟨2, 11⟩ = true ↔
      ∃ own, ((⟨[3, 4]⟩ : PrivatePoly).eval 2 : Outcome CryptoError Share) = .ok own ∧
        (11 : Scalar) = own.value := by
  let := exponentCurve
  exact shares_verify_iff.1 ⟨[3, 4]⟩ (List.cons_ne_nil _ _) ⟨2, 11⟩

end Sigimora.Frost
