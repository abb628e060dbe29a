import Sigimora.Crypto.SecretSharing

/-!
# Threshold BLS signatures

The aggregation of partial signatures by the canonical Lagrange coefficients.
-/

namespace Sigimora.AtsBls

open Shamir

variable [Curve]

structure PartialSignature where
  signerId : ParticipantId
  sigma : G1Point

structure ThresholdSignature where
  sigma : G1Point
  signers : List ParticipantId
  threshold : ℕ

/-- Combine at least `threshold` partial signatures. -/
def aggregate (partials : List PartialSignature) (threshold : ℕ) :
    Outcome CryptoError ThresholdSignature :=
  if partials.length < threshold then
    Outcome.fail (.invalidParameter
      s!"need at least {threshold} partials, got {partials.length}")
  else do
    let signers := partials.map PartialSignature.signerId
    let lambdas ← lagrangeAtZero signers
    return {
      sigma := weightedSum (partials.map PartialSignature.sigma) lambdas
      signers
      threshold }

end Sigimora.AtsBls
