import Sigimora.Library.Schnorr
import Sigimora.Math.ExponentCurve
import Sigimora.Mcp.Zkp

/-!
# Completeness and special soundness

The verifiers of stake, no-cheating and membership proofs check the equation of a
Schnorr proof, each under a challenge of its own. A prover that knows the secret is
accepted, and two accepted responses to one commitment give the secret away.
-/

namespace Sigimora.Mcp

open Pedersen

variable [Curve] [Sha3]

/-- The challenge of a stake proof. -/
def stakeChallenge (publicKey commitment : G2Point) : Scalar :=
  fsChallenge commitment.toBytes publicKey.toBytes (byteLiteral "STAKE-PROOF")

/-- The challenge of a no-cheating proof. -/
def noCheatingChallenge (commitment nonceCommitment : G1Point) : Scalar :=
  fsChallenge nonceCommitment.toBytes commitment.toBytes (byteLiteral "NO-CHEATING")

/-- The challenge of a membership proof. -/
def membershipChallenge (memberPk commitment : G2Point) : Scalar :=
  fsChallenge commitment.toBytes memberPk.toBytes (byteLiteral "MEMBERSHIP-PROOF")

/-! ## What the verifiers check -/

/-- A stake proof is accepted just if its equation holds and it commits to something. -/
theorem verifyStakeProof_eq_ok_iff {publicKey : G2Point} {vssPublic : VssPublic}
    {proof : StakeProof} :
    ZkpEngine.verifyStakeProof publicKey vssPublic proof = .ok () ↔
      proof.commitment ≠ 0 ∧ Schnorr.Accepts G2Point.generator publicKey proof.commitment
        (stakeChallenge publicKey proof.commitment) proof.response := by
  unfold ZkpEngine.verifyStakeProof
  simp only
  split_ifs with hidentity hequation
  · exact iff_of_false nofun fun h => h.1 hidentity
  · exact iff_of_false nofun fun h => hequation h.2
  · exact iff_of_true rfl ⟨hidentity, not_not.mp hequation⟩

/-- A proof of no cheating is accepted just if its equation holds for the commitment expected. -/
theorem verifyNoCheatingProof_eq_ok_iff {proof : NoCheatingProof}
    {expectedCommitment : G1Point} :
    ZkpEngine.verifyNoCheatingProof proof expectedCommitment = .ok () ↔
      proof.originalCommitment = expectedCommitment ∧
        Schnorr.Accepts G1Point.generator proof.originalCommitment proof.verificationScalar
          (noCheatingChallenge proof.originalCommitment proof.verificationScalar)
          proof.consistencyProof := by
  unfold ZkpEngine.verifyNoCheatingProof
  simp only
  split_ifs with hmismatch hequation
  · exact iff_of_false nofun fun h => hmismatch h.1
  · exact iff_of_false nofun fun h => hequation h.2
  · exact iff_of_true rfl ⟨not_not.mp hmismatch, not_not.mp hequation⟩

/-- A membership proof is accepted just if it commits to something and its equation holds for the
registered key of the sender. -/
theorem verifyMembershipProof_eq_ok_iff {sender : ParticipantId} {proof : MembershipProof}
    {params : Ats.NetworkPublicParams} :
    ZkpEngine.verifyMembershipProof sender proof params = .ok () ↔
      proof.membershipCommitment ≠ 0 ∧ ∃ entry,
        (params.memberPks.find? fun entry => entry.1 == sender) = some entry ∧
        Schnorr.Accepts G2Point.generator entry.2 proof.membershipCommitment
          (membershipChallenge entry.2 proof.membershipCommitment) proof.response := by
  unfold ZkpEngine.verifyMembershipProof
  split_ifs with hidentity
  · exact iff_of_false nofun fun h => h.1 hidentity
  · rw [and_iff_right hidentity]
    cases hfind : params.memberPks.find? fun entry => entry.1 == sender with
    | none => exact iff_of_false nofun fun ⟨_, h, _⟩ => nomatch h
    | some entry =>
      simp only [Option.some.injEq, exists_eq_left']
      split_ifs with hequation
      · exact iff_of_false nofun hequation
      · exact iff_of_true rfl (not_not.mp hequation)

/-! ## Honest provers -/

omit [Sha3] in
/-- A commitment to a nonce is the identity for the nonce zero only. -/
theorem commitment_ne_zero {r : Scalar} (hr : r ≠ 0) :
    r • (G2Point.generator : G2Point) ≠ 0 := by
  rw [ne_eq, smul_eq_zero, not_or]
  exact ⟨hr, G2Point.generator_ne_zero⟩

/-- A stake proof can be made, and it is accepted. -/
theorem exists_stakeProof (x : Scalar) (vssPublic : VssPublic) (pedersen : PedersenSetup)
    {coins : ℕ → Scalar} (hnonce : coins 0 ≠ 0) :
    ∃ proof, ZkpEngine.generateStakeProof (x • G2Point.generator) vssPublic pedersen (some x)
        coins = .ok proof ∧
      ZkpEngine.verifyStakeProof (x • G2Point.generator) vssPublic proof = .ok () := by
  refine ⟨_, rfl, verifyStakeProof_eq_ok_iff.mpr ⟨commitment_ne_zero hnonce, ?_⟩⟩
  exact Schnorr.accepts_response _ _ _ _

/-- A proof of no cheating can be made, and it is accepted. -/
theorem exists_noCheatingProof (x : Scalar) (contribution : G1Point) (r : Scalar) :
    ∃ proof, ZkpEngine.generateNoCheatingProof x contribution r = .ok proof ∧
      ZkpEngine.verifyNoCheatingProof proof (x • G1Point.generator) = .ok () := by
  refine ⟨_, rfl, verifyNoCheatingProof_eq_ok_iff.mpr ⟨rfl, ?_⟩⟩
  exact Schnorr.accepts_response _ _ _ _

/-! ## Extraction -/

omit [Sha3] in
/-- **Schnorr proofs.** Stake and no-cheating proofs of a known secret are accepted. Two
responses that are accepted under different challenges determine the secret, whatever the
statement and the commitment are. -/
theorem schnorr_complete_and_sound :
    (∀ [Sha3] (x : Scalar) (vssPublic : VssPublic) (pedersen : PedersenSetup)
      (coins : ℕ → Scalar), coins 0 ≠ 0 →
      ∃ proof, ZkpEngine.generateStakeProof (x • G2Point.generator) vssPublic pedersen (some x)
          coins = .ok proof ∧
        ZkpEngine.verifyStakeProof (x • G2Point.generator) vssPublic proof = .ok ()) ∧
    (∀ [Sha3] (x : Scalar) (contribution : G1Point) (r : Scalar),
      ∃ proof, ZkpEngine.generateNoCheatingProof x contribution r = .ok proof ∧
        ZkpEngine.verifyNoCheatingProof proof (x • G1Point.generator) = .ok ()) ∧
    (∀ (sha sha' : Sha3) (P R : G2Point) (vssPublic : VssPublic) (s s' : Scalar),
      @stakeChallenge _ sha P R ≠ @stakeChallenge _ sha' P R →
      @ZkpEngine.verifyStakeProof _ sha P vssPublic ⟨R, s⟩ = .ok () →
      @ZkpEngine.verifyStakeProof _ sha' P vssPublic ⟨R, s'⟩ = .ok () →
      P = ((s - s') / (@stakeChallenge _ sha P R - @stakeChallenge _ sha' P R)) •
        G2Point.generator) ∧
    ∀ (sha sha' : Sha3) (P R : G1Point) (s s' : Scalar),
      @noCheatingChallenge _ sha P R ≠ @noCheatingChallenge _ sha' P R →
      @ZkpEngine.verifyNoCheatingProof _ sha ⟨P, s, R⟩ P = .ok () →
      @ZkpEngine.verifyNoCheatingProof _ sha' ⟨P, s', R⟩ P = .ok () →
      P = ((s - s') / (@noCheatingChallenge _ sha P R - @noCheatingChallenge _ sha' P R)) •
        G1Point.generator := by
  refine ⟨fun x vssPublic pedersen coins => exists_stakeProof x vssPublic pedersen,
    exists_noCheatingProof, ?_, ?_⟩
  · intro sha sha' P R vssPublic s s' hne haccepted haccepted'
    have hfirst := ((@verifyStakeProof_eq_ok_iff _ sha _ _ _).mp haccepted).2
    exact hfirst.extract ((@verifyStakeProof_eq_ok_iff _ sha' _ _ _).mp haccepted').2 hne
  · intro sha sha' P R s s' hne haccepted haccepted'
    have hfirst := ((@verifyNoCheatingProof_eq_ok_iff _ sha _ _).mp haccepted).2
    exact hfirst.extract ((@verifyNoCheatingProof_eq_ok_iff _ sha' _ _).mp haccepted').2 hne

omit [Curve] [Sha3] in
/-- The digest that makes every challenge the same. -/
@[reducible] def constantSha3 (c : Scalar) : Sha3 where
  sha3 _ := c.toBytes
  length_sha3 _ := Scalar.length_toBytes c

omit [Curve] [Sha3] in
/-- Under a constant hash the challenge is constant. -/
theorem fsChallenge_constantSha3 (c : Scalar) (commitment publicData context : List UInt8) :
    @fsChallenge (constantSha3 c) commitment publicData context = c := by
  have hread (bytes : List UInt8) :
      Scalar.fromBytes (@Sha3.sha3 (constantSha3 c) bytes) = .ok c := Scalar.fromBytes_toBytes c
  unfold fsChallenge
  simp only [hread]

omit [Curve] [Sha3] in
/-- The secret 5 behind two responses to the commitment of the nonce one. -/
theorem schnorr_extracts_five :
    letI := exponentCurve
    let c := @stakeChallenge _ truncatingSha3 (5 : Scalar) (1 : Scalar)
    let c' := @stakeChallenge _ (constantSha3 0) (5 : Scalar) (1 : Scalar)
    (5 : Scalar) = ((1 + c * 5 - 1) / (c - c')) • (G2Point.generator : G2Point) := by
  let := exponentCurve
  let c := @stakeChallenge _ truncatingSha3 (5 : Scalar) (1 : Scalar)
  exact schnorr_complete_and_sound.2.2.1 truncatingSha3 (constantSha3 0) (5 : Scalar) (1 : Scalar)
    ⟨[]⟩ (1 + c * 5) 1 (by decide +kernel) (by decide +kernel) (by decide +kernel)

end Sigimora.Mcp
