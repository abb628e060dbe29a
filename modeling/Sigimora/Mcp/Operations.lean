import Sigimora.Library.Run
import Sigimora.Mcp.Calls

/-!
# Operations

The public calls of the protocol with their arguments, so that a run is a list of
them. A call that panics does not return, so it reaches no state.
-/

namespace Sigimora.Mcp

open Pedersen

variable [Curve]

/-- A public call of the protocol. -/
inductive McpOperation
  | startDkg (pedersen : PedersenSetup) (coins zkpCoins : ℕ → Scalar)
  | processDkgCommit (sender : ParticipantId) (publicKey : G2Point) (vssPublic : VssPublic)
      (stakeProof : StakeProof)
  | distributeDkgShare (recipient : ParticipantId) (coins : ShareCoins) (nonce : Scalar)
  | processDkgShare (sender : ParticipantId) (encryptedShare : List UInt8)
      (complianceProof : ComplianceProof)
  | finalizeDkg
  | startSigningRound
  | createSignCommitment (msg : List UInt8) (signer : Ats.SignerConfig) (nonce : Scalar)
  | processSignCommitment (sender : ParticipantId) (commitment : G1Point)
      (membershipProof : MembershipProof)
  | createSignReveal (msg : List UInt8) (signer : Ats.SignerConfig) (trackingPk : G2Point)
      (coins : Ats.TagCoins) (nonce : Scalar)
  | processSignReveal (sender : ParticipantId) (partialSig : Ats.PartialSignature)
      (complianceProof : ComplianceProof)
  | combineSignatures (params : Ats.NetworkPublicParams) (msg : List UInt8) (epoch : UInt64)
      (aggregatorId : ParticipantId)
  | verifyCombinedSignature (params : Ats.NetworkPublicParams) (msg : List UInt8)
      (sig : Ats.AtsSignature)

/-- The state before the first call, with the public field of the network parameters
as the application has set it. No call sets it. -/
def McpState.configured (n t : ℕ) (myId : ParticipantId)
    (networkParams : Option Ats.NetworkPublicParams) : McpState :=
  { McpState.new n t myId with networkParams }

variable [Cipher] [Sha3]

/-- Make the call. -/
def McpOperation.perform : McpOperation → McpCall Unit
  | .startDkg pedersen coins zkpCoins => Stateful.ignore (Mcp.startDkg pedersen coins zkpCoins)
  | .processDkgCommit sender publicKey vssPublic stakeProof =>
    Mcp.processDkgCommit sender publicKey vssPublic stakeProof
  | .distributeDkgShare recipient coins nonce =>
    Stateful.ignore (Mcp.distributeDkgShare recipient coins nonce)
  | .processDkgShare sender encryptedShare complianceProof =>
    Mcp.processDkgShare sender encryptedShare complianceProof
  | .finalizeDkg => Stateful.ignore Mcp.finalizeDkg
  | .startSigningRound => Mcp.startSigningRound
  | .createSignCommitment msg signer nonce =>
    Stateful.ignore (Mcp.createSignCommitment msg signer nonce)
  | .processSignCommitment sender commitment membershipProof =>
    Mcp.processSignCommitment sender commitment membershipProof
  | .createSignReveal msg signer trackingPk coins nonce =>
    Stateful.ignore (Mcp.createSignReveal msg signer trackingPk coins nonce)
  | .processSignReveal sender partialSig complianceProof =>
    Mcp.processSignReveal sender partialSig complianceProof
  | .combineSignatures params msg epoch aggregatorId =>
    Stateful.ignore (Mcp.combineSignatures params msg epoch aggregatorId)
  | .verifyCombinedSignature params msg sig =>
    Stateful.ignore (Mcp.verifyCombinedSignature params msg sig)

/-- The state that a call leaves behind when it returns. -/
def McpState.step (state : McpState) (operation : McpOperation) : McpState :=
  match operation.perform state with
  | (.error (.panic _), _) => state
  | (_, next) => next

end Sigimora.Mcp
