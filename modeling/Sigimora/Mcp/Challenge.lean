import Sigimora.Mcp.Schnorr

/-!
# Challenges

A digest that is not below the group order gives the challenge zero, and with it every
statement drops out of the equation that a proof has to satisfy. More than half of the
digests are of this kind.
-/

namespace Sigimora.Mcp

variable [Sha3]

/-- The digest that a challenge is made of, as a number. -/
def challengeDigest (commitment publicData context : List UInt8) : ℕ :=
  ByteString.ofBigEndian (Sha3.sha3
    (byteLiteral "SIGIMORA-ZKP-CHALLENGE" ++ context ++ commitment ++ publicData))

omit [Sha3] in
/-- A digest that is a canonical scalar, or zero modulo the group order. -/
def KeepsStatement (digest : ℕ) : Prop := digest < curveOrder ∨ curveOrder ∣ digest

variable {commitment publicData context : List UInt8}

/-- When the challenge vanishes. -/
theorem fsChallenge_eq_zero_iff :
    fsChallenge commitment publicData context = 0 ↔
      curveOrder ≤ challengeDigest commitment publicData context ∨
        curveOrder ∣ challengeDigest commitment publicData context := by
  unfold fsChallenge Scalar.fromBytes
  change (match (if challengeDigest commitment publicData context < curveOrder then
      (.ok (challengeDigest commitment publicData context : ℕ) : Outcome MathError Scalar)
    else Outcome.fail .invalidScalar) with
    | .ok c => c
    | .error _ => 0) = 0 ↔ _
  split_ifs with hcanonical
  · rw [or_iff_right (not_le.mpr hcanonical)]
    exact ZMod.natCast_eq_zero_iff _ _
  · exact iff_of_true rfl (Or.inl (not_lt.mp hcanonical))

/-- The challenge does not vanish by mistake. -/
theorem fsChallenge_ne_zero_iff :
    (¬ curveOrder ∣ challengeDigest commitment publicData context →
        fsChallenge commitment publicData context ≠ 0) ↔
      KeepsStatement (challengeDigest commitment publicData context) := by
  rw [ne_eq, fsChallenge_eq_zero_iff, not_or, not_le, KeepsStatement]
  tauto

/-! ## Proofs without a secret

Whoever chooses the response first and commits to its multiple of the generator has a
proof of every statement that the challenge zero belongs to.
-/

omit [Sha3] in
/-- A forgery is rejected exactly when its digest keeps the statement, or there is none. -/
theorem forgeryRejected_iff {identity trivial accepted : Prop} {digest : ℕ}
    (h : ¬ identity → (accepted ↔
      (curveOrder ≤ digest ∨ curveOrder ∣ digest) ∨ trivial)) :
    (¬ identity → ¬ trivial → ¬ curveOrder ∣ digest → ¬ accepted) ↔
      identity ∨ trivial ∨ KeepsStatement digest := by
  rw [KeepsStatement, ← not_le]
  by_cases hidentity : identity
  · simp [hidentity]
  · rw [h hidentity]
    tauto

section Forgeries

variable [Curve]

/-- The digest of a stake proof with this response. -/
def stakeDigest (publicKey : G2Point) (s : Scalar) : ℕ :=
  challengeDigest (G2Point.toBytes (s • G2Point.generator)) publicKey.toBytes
    (byteLiteral "STAKE-PROOF")

/-- The digest of a membership proof with this response. -/
def membershipDigest (publicKey : G2Point) (s : Scalar) : ℕ :=
  challengeDigest (G2Point.toBytes (s • G2Point.generator)) publicKey.toBytes
    (byteLiteral "MEMBERSHIP-PROOF")

/-- The digest of a no-cheating proof with this response. -/
def noCheatingDigest (commitment : G1Point) (s : Scalar) : ℕ :=
  challengeDigest (G1Point.toBytes (s • G1Point.generator)) commitment.toBytes
    (byteLiteral "NO-CHEATING")

/-- The stake proof without a secret is rejected. -/
def StakeForgeryRejected (publicKey : G2Point) (vssPublic : Pedersen.VssPublic) (s : Scalar) :
    Prop :=
  s • G2Point.generator ≠ (0 : G2Point) → publicKey ≠ 0 →
    ¬ curveOrder ∣ stakeDigest publicKey s →
    ZkpEngine.verifyStakeProof publicKey vssPublic ⟨s • G2Point.generator, s⟩ ≠ .ok ()

/-- The membership proof without a secret is rejected. -/
def MembershipForgeryRejected (sender : ParticipantId) (params : Ats.NetworkPublicParams)
    (s : Scalar) : Prop :=
  ∀ entry, (params.memberPks.find? fun entry => entry.1 == sender) = some entry →
    s • G2Point.generator ≠ (0 : G2Point) → entry.2 ≠ 0 →
    ¬ curveOrder ∣ membershipDigest entry.2 s →
    ZkpEngine.verifyMembershipProof sender ⟨s • G2Point.generator, s⟩ params ≠ .ok ()

/-- The no-cheating proof without a secret is rejected. -/
def NoCheatingForgeryRejected (commitment : G1Point) (s : Scalar) : Prop :=
  s • G1Point.generator ≠ (0 : G1Point) → commitment ≠ 0 →
    ¬ curveOrder ∣ noCheatingDigest commitment s →
    ZkpEngine.verifyNoCheatingProof ⟨commitment, s, s • G1Point.generator⟩ commitment ≠ .ok ()

/-- The stake proof without a secret is accepted when the statement drops out. -/
theorem verifyStakeProof_forged_iff {publicKey : G2Point} {vssPublic : Pedersen.VssPublic}
    {s : Scalar} (hs : s • G2Point.generator ≠ (0 : G2Point)) :
    ZkpEngine.verifyStakeProof publicKey vssPublic ⟨s • G2Point.generator, s⟩ = .ok () ↔
      (curveOrder ≤ stakeDigest publicKey s ∨ curveOrder ∣ stakeDigest publicKey s) ∨
        publicKey = 0 := by
  rw [verifyStakeProof_eq_ok_iff, and_iff_right hs, Schnorr.accepts_self_iff, stakeChallenge,
    fsChallenge_eq_zero_iff, stakeDigest]

/-- The proof that is made without the key passes just if the challenge vanishes or the key does. -/
theorem verifyMembershipProof_forged_iff {sender : ParticipantId}
    {params : Ats.NetworkPublicParams} {s : Scalar} {entry : ParticipantId × G2Point}
    (hentry : (params.memberPks.find? fun entry => entry.1 == sender) = some entry)
    (hs : s • G2Point.generator ≠ (0 : G2Point)) :
    ZkpEngine.verifyMembershipProof sender ⟨s • G2Point.generator, s⟩ params = .ok () ↔
      (curveOrder ≤ membershipDigest entry.2 s ∨ curveOrder ∣ membershipDigest entry.2 s) ∨
        entry.2 = 0 := by
  rw [verifyMembershipProof_eq_ok_iff, and_iff_right hs, hentry]
  simp only [Option.some.injEq, exists_eq_left']
  rw [Schnorr.accepts_self_iff, membershipChallenge, fsChallenge_eq_zero_iff, membershipDigest]

/-- The same for the proof of no cheating. -/
theorem verifyNoCheatingProof_forged_iff {commitment : G1Point} {s : Scalar} :
    ZkpEngine.verifyNoCheatingProof ⟨commitment, s, s • G1Point.generator⟩ commitment = .ok () ↔
      (curveOrder ≤ noCheatingDigest commitment s ∨ curveOrder ∣ noCheatingDigest commitment s) ∨
        commitment = 0 := by
  rw [verifyNoCheatingProof_eq_ok_iff, and_iff_right rfl, Schnorr.accepts_self_iff,
    noCheatingChallenge, fsChallenge_eq_zero_iff, noCheatingDigest]

/-- **Challenges.** A challenge vanishes by mistake exactly when the digest is no canonical
scalar, and exactly then the three verifiers accept proofs that were made without a secret. -/
theorem statements_kept_iff :
    (∀ commitment publicData context : List UInt8,
      (¬ curveOrder ∣ challengeDigest commitment publicData context →
          fsChallenge commitment publicData context ≠ 0) ↔
        KeepsStatement (challengeDigest commitment publicData context)) ∧
    (∀ (publicKey : G2Point) (vssPublic : Pedersen.VssPublic) (s : Scalar),
      StakeForgeryRejected publicKey vssPublic s ↔
        s • G2Point.generator = (0 : G2Point) ∨ publicKey = 0 ∨
          KeepsStatement (stakeDigest publicKey s)) ∧
    (∀ (sender : ParticipantId) (params : Ats.NetworkPublicParams) (s : Scalar),
      MembershipForgeryRejected sender params s ↔
        ∀ entry, (params.memberPks.find? fun entry => entry.1 == sender) = some entry →
          s • G2Point.generator = (0 : G2Point) ∨ entry.2 = 0 ∨
            KeepsStatement (membershipDigest entry.2 s)) ∧
    ∀ (commitment : G1Point) (s : Scalar),
      NoCheatingForgeryRejected commitment s ↔
        s • G1Point.generator = (0 : G1Point) ∨ commitment = 0 ∨
          KeepsStatement (noCheatingDigest commitment s) := by
  refine ⟨fun _ _ _ => fsChallenge_ne_zero_iff, ?_, ?_, ?_⟩
  · intro publicKey vssPublic s
    exact forgeryRejected_iff verifyStakeProof_forged_iff
  · intro sender params s
    refine forall_congr' fun entry => forall_congr' fun hentry => ?_
    exact forgeryRejected_iff (verifyMembershipProof_forged_iff hentry)
  · intro commitment s
    exact forgeryRejected_iff fun _ => verifyNoCheatingProof_forged_iff

end Forgeries

/-! ## A digest above the group order -/

omit [Sha3] in
/-- What is hashed for a stake proof with the response one under the generator as key. -/
def generatorStakeInput : List UInt8 :=
  letI := exponentCurve
  byteLiteral "SIGIMORA-ZKP-CHALLENGE" ++ byteLiteral "STAKE-PROOF" ++
    G2Point.toBytes G2Point.generator ++ G2Point.toBytes G2Point.generator

omit [Sha3] in
/-- A digest that agrees with SHA3-256 on that input. -/
@[reducible] def generatorStakeSha3 : Sha3 where
  sha3 bytes :=
    if bytes = generatorStakeInput then
      ByteString.bigEndian 32
        0xd4d34c2836662c31b8761ab8a27b73a3d51c0b96781dd9cfcd56acf7d10c70e7
    else ByteString.bigEndian 32 (ByteString.ofBigEndian bytes)
  length_sha3 bytes := by
    split <;> exact ByteString.length_bigEndian _ _

omit [Sha3] in
/-- A stake proof for the generator is accepted that took no secret. -/
theorem forged_stake_accepted :
    letI := exponentCurve
    letI := generatorStakeSha3
    ¬ ∀ (publicKey : G2Point) (vssPublic : Pedersen.VssPublic) (s : Scalar),
      StakeForgeryRejected publicKey vssPublic s := by
  let := exponentCurve
  let := generatorStakeSha3
  intro h
  exact h G2Point.generator ⟨[]⟩ 1 (by decide +kernel) (by decide +kernel) (by decide +kernel)
    (by decide +kernel)

end Sigimora.Mcp
