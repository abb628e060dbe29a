import Mathlib.Data.Finmap
import Sigimora.Ats.Scheme
import Sigimora.Crypto.Pedersen

/-!
# Proofs of the protocol

Schnorr proofs made non-interactive by a hashed challenge. The digest comes from
the `sha3` crate and is taken as the class `Sha3`. A digest that is no canonical
scalar gives the challenge zero. The compliance proof is a placeholder: its
verification looks at nothing but the commitment.
-/

namespace Sigimora.Mcp

open Pedersen

/-- SHA3-256. -/
class Sha3 where
  sha3 : List UInt8 → List UInt8
  length_sha3 : ∀ bytes, (sha3 bytes).length = 32

/-- The digest that keeps the last 32 bytes. -/
@[reducible] def truncatingSha3 : Sha3 where
  sha3 bytes := ByteString.bigEndian 32 (ByteString.ofBigEndian bytes)
  length_sha3 _ := ByteString.length_bigEndian _ _

/-- The challenge of a commitment: the digest read as a scalar, or zero. -/
def fsChallenge [Sha3] (commitment publicData context : List UInt8) : Scalar :=
  let hash := Sha3.sha3
    (byteLiteral "SIGIMORA-ZKP-CHALLENGE" ++ context ++ commitment ++ publicData)
  match Scalar.fromBytes hash with
  | .ok c => c
  | .error _ => 0

variable [Curve]

/-- Proof of knowledge of the secret key of a public key. -/
structure StakeProof where
  commitment : G2Point
  response : Scalar

/-- Meant to prove a correct partial signature or share. -/
structure ComplianceProof where
  evalProof : G1Point
  response : Scalar

/-- Proof of knowledge of a committed value. -/
structure NoCheatingProof where
  originalCommitment : G1Point
  consistencyProof : Scalar
  verificationScalar : G1Point

/-- The number of participants of a signature. -/
structure ThresholdProof where
  participantCount : UInt16

/-- Proof of knowledge of the secret key of a member. -/
structure MembershipProof where
  membershipCommitment : G2Point
  response : Scalar

namespace ZkpEngine

variable [Sha3]

/-! ## Stake proofs -/

/-- Prove knowledge of the secret. Without a secret a random one is drawn. -/
def generateStakeProof (publicKey : G2Point) (_vssPublic : VssPublic) (_pedersen : PedersenSetup)
    (secret : Option Scalar) (coins : ℕ → Scalar) : Outcome String StakeProof :=
  let draws := match secret with
    | some s => (s, coins 0)
    | none => (coins 0, coins 1)
  let witness := draws.1
  let r := draws.2
  let rCommit : G2Point := r • G2Point.generator
  let c := fsChallenge rCommit.toBytes publicKey.toBytes (byteLiteral "STAKE-PROOF")
  .ok { commitment := rCommit, response := r + c * witness }

/-- Check a proof of knowledge of the secret of the public key. -/
def verifyStakeProof (publicKey : G2Point) (_vssPublic : VssPublic) (proof : StakeProof) :
    Outcome String Unit :=
  if proof.commitment = 0 then Outcome.fail "invalid stake proof: identity commitment"
  else
    let c := fsChallenge proof.commitment.toBytes publicKey.toBytes (byteLiteral "STAKE-PROOF")
    if proof.response • G2Point.generator ≠ proof.commitment + c • publicKey then
      Outcome.fail "stake proof verification failed"
    else .ok ()

/-! ## Compliance proofs -/

omit [Sha3] in
/-- A commitment with its opening, about no share in particular. -/
def generateComplianceProof {Share Commits : Type} (_share : Share) (_commits : Commits)
    (r : Scalar) : Outcome String ComplianceProof :=
  .ok { evalProof := r • G1Point.generator, response := r }

omit [Sha3] in
/-- Only the identity is rejected. -/
def verifyComplianceProof (_sender : ParticipantId) (_encryptedShare : List UInt8)
    (proof : ComplianceProof) : Outcome String Unit :=
  if proof.evalProof = 0 then Outcome.fail "invalid compliance proof: identity eval"
  else .ok ()

/-! ## No-cheating proofs -/

/-- Prove knowledge of the share, together with the commitment to it. -/
def generateNoCheatingProof (originalShare : Scalar) (_contribution : G1Point) (r : Scalar) :
    Outcome String NoCheatingProof :=
  let rCommit : G1Point := r • G1Point.generator
  let commitment : G1Point := originalShare • G1Point.generator
  let c := fsChallenge rCommit.toBytes commitment.toBytes (byteLiteral "NO-CHEATING")
  .ok {
    originalCommitment := commitment
    consistencyProof := r + c * originalShare
    verificationScalar := rCommit }

/-- Check a proof of knowledge of the share behind the expected commitment. -/
def verifyNoCheatingProof (proof : NoCheatingProof) (expectedCommitment : G1Point) :
    Outcome String Unit :=
  if proof.originalCommitment ≠ expectedCommitment then
    Outcome.fail "commitment mismatch: possible cheating detected"
  else
    let c := fsChallenge proof.verificationScalar.toBytes proof.originalCommitment.toBytes
      (byteLiteral "NO-CHEATING")
    if proof.consistencyProof • G1Point.generator ≠
        proof.verificationScalar + c • proof.originalCommitment then
      Outcome.fail "no-cheating proof verification failed"
    else .ok ()

/-! ## Membership proofs -/

/-- Prove knowledge of the long-term secret key. -/
def generateMembershipProof (signer : Ats.SignerConfig) (_params : Ats.NetworkPublicParams)
    (r : Scalar) : Outcome String MembershipProof :=
  let pk : G2Point := signer.ltSk • G2Point.generator
  let rCommit : G2Point := r • G2Point.generator
  let c := fsChallenge rCommit.toBytes pk.toBytes (byteLiteral "MEMBERSHIP-PROOF")
  .ok { membershipCommitment := rCommit, response := r + c * signer.ltSk }

/-- Check a proof of knowledge of the secret behind the member's share key. -/
def verifyMembershipProof (sender : ParticipantId) (proof : MembershipProof)
    (params : Ats.NetworkPublicParams) : Outcome String Unit :=
  if proof.membershipCommitment = 0 then Outcome.fail "invalid membership commitment"
  else
    match params.memberPks.find? fun entry => entry.1 == sender with
    | none => Outcome.fail s!"participant {sender} not in authorized set"
    | some entry =>
      let c := fsChallenge proof.membershipCommitment.toBytes entry.2.toBytes
        (byteLiteral "MEMBERSHIP-PROOF")
      if proof.response • G2Point.generator ≠ proof.membershipCommitment + c • entry.2 then
        Outcome.fail "membership proof verification failed"
      else .ok ()

end ZkpEngine

end Sigimora.Mcp
