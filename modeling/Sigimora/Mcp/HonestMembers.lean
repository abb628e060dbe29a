import Sigimora.Ats.Signing
import Sigimora.Mcp.Calls
import Sigimora.Mcp.Schnorr

/-!
# Proofs of honest members

A membership proof is made with the long-term key and checked against the key of
the share, which is another key of the same member. An honest member is accepted
only where the two keys cannot be told apart in the equation.
-/

namespace Sigimora.Mcp

variable [Curve]

/-- A signer that is registered with the keys of both of its secrets. -/
structure Registered (params : Ats.NetworkPublicParams) (signer : Ats.SignerConfig) : Prop where
  nodup : (params.memberPks.map Prod.fst).Nodup
  memberPk : (signer.nodeId, signer.dkgShare • G2Point.generator) ∈ params.memberPks
  memberLtPk : (signer.nodeId, signer.ltSk • G2Point.generator) ∈ params.memberLtPks

/-- The proof that a signer makes is valid, and whoever is in the commit phase of the same
network records the commitment that the proof comes with. -/
structure MemberAccepted [Sha3] (params : Ats.NetworkPublicParams) (signer : Ats.SignerConfig)
    (nonce : Scalar) : Prop where
  valid : ∃ proof, ZkpEngine.generateMembershipProof signer params nonce = .ok proof ∧
    ZkpEngine.verifyMembershipProof signer.nodeId proof params = .ok ()
  recorded : ∀ (msg : List UInt8) (maker receiver : McpState),
    maker.networkParams = some params → receiver.networkParams = some params →
    receiver.phase = .signCommit →
    ∃ commitment proof receiver',
      createSignCommitment msg signer nonce maker = (.ok (commitment, proof), maker) ∧
      processSignCommitment signer.nodeId commitment proof receiver = (.ok (), receiver')

variable {params : Ats.NetworkPublicParams} {signer : Ats.SignerConfig} {nonce : Scalar}

/-- The only key under the id of a registered signer is that of its share. -/
theorem Registered.find? (h : Registered params signer) :
    (params.memberPks.find? fun entry => entry.1 == signer.nodeId) =
      some (signer.nodeId, signer.dkgShare • G2Point.generator) := by
  obtain ⟨pk, hmem, hfind⟩ := Ats.exists_find?_memberPks (List.mem_map_of_mem h.memberPk)
  rw [hfind, List.inj_on_of_nodup_map h.nodup hmem h.memberPk rfl]

section

variable [Sha3]

/-- The proof of a registered signer is valid if challenge and secret agree in the product. -/
theorem verifyMembershipProof_honest_iff (h : Registered params signer) (hnonce : nonce ≠ 0) :
    (∃ proof, ZkpEngine.generateMembershipProof signer params nonce = .ok proof ∧
        ZkpEngine.verifyMembershipProof signer.nodeId proof params = .ok ()) ↔
      membershipChallenge (signer.ltSk • G2Point.generator) (nonce • G2Point.generator) *
          signer.ltSk =
        membershipChallenge (signer.dkgShare • G2Point.generator) (nonce • G2Point.generator) *
          signer.dkgShare := by
  rw [← Schnorr.accepts_response_iff G2Point.generator_ne_zero (r := nonce)]
  constructor
  · rintro ⟨proof, hproof, hverify⟩
    cases hproof
    obtain ⟨_, entry, hfind, haccepts⟩ := verifyMembershipProof_eq_ok_iff.mp hverify
    rw [h.find?, Option.some.injEq] at hfind
    subst hfind
    exact haccepts
  · intro haccepts
    exact ⟨_, rfl, verifyMembershipProof_eq_ok_iff.mpr
      ⟨commitment_ne_zero hnonce, _, h.find?, haccepts⟩⟩

/-- A valid proof is recorded with its commitment. -/
theorem memberAccepted_iff_valid :
    MemberAccepted params signer nonce ↔
      ∃ proof, ZkpEngine.generateMembershipProof signer params nonce = .ok proof ∧
        ZkpEngine.verifyMembershipProof signer.nodeId proof params = .ok () := by
  refine ⟨MemberAccepted.valid, fun hvalid => ⟨hvalid, ?_⟩⟩
  obtain ⟨proof, hproof, hverify⟩ := hvalid
  intro msg maker receiver hmaker hreceiver hphase
  refine ⟨signer.dkgShare • hashToG1 msg (byteLiteral "SIGIMORA_MCP_SIG"), proof, _, ?_,
    processSignCommitment_eq_ok_iff.mpr ⟨hphase, ⟨params, hreceiver, hverify⟩, rfl⟩⟩
  unfold createSignCommitment
  rw [Stateful.get_bind, Stateful.lift_bind_eq_ok]
  refine ⟨params, Outcome.okOr_eq_ok.mpr hmaker, ?_⟩
  rw [Stateful.lift_bind_eq_ok]
  exact ⟨proof, Outcome.mapErr_eq_ok_iff.mpr hproof, rfl⟩

end

/-- **Honest members.** A registered signer is accepted exactly if its two secrets have the same
product with the challenges of their keys. Whatever the digest is, this is so only for one secret
in both places. -/
theorem honest_member_accepted_iff (h : Registered params signer) (hnonce : nonce ≠ 0) :
    (∀ [Sha3], MemberAccepted params signer nonce ↔
      membershipChallenge (signer.ltSk • G2Point.generator) (nonce • G2Point.generator) *
          signer.ltSk =
        membershipChallenge (signer.dkgShare • G2Point.generator) (nonce • G2Point.generator) *
          signer.dkgShare) ∧
    ((∀ [Sha3], MemberAccepted params signer nonce) ↔ signer.ltSk = signer.dkgShare) := by
  have hexact [Sha3] : MemberAccepted params signer nonce ↔ _ :=
    memberAccepted_iff_valid.trans (verifyMembershipProof_honest_iff h hnonce)
  refine ⟨hexact, ?_, ?_⟩
  · intro haccepted
    let := constantSha3 1
    have hproducts := hexact.mp haccepted
    simp only [membershipChallenge, fsChallenge_constantSha3, one_mul] at hproducts
    exact hproducts
  · intro hsame _
    rw [hexact, hsame]

omit [Curve] in
/-- The first of two members, with the share 8 and the long-term secret 11. -/
theorem registered_firstMember :
    letI := exponentCurve
    Registered Ats.twoMembers (Ats.SignerConfig.new 1 8 11) := by
  let := exponentCurve
  refine ⟨by decide, ?_, ?_⟩
  · change ((1, 8 * 1) : ParticipantId × Scalar) ∈ [(1, 8), (2, 9)]
    rw [mul_one]
    exact List.mem_cons_self
  · change ((1, 11 * 1) : ParticipantId × Scalar) ∈ [(1, 11), (2, 12)]
    rw [mul_one]
    exact List.mem_cons_self

omit [Curve] in
/-- The two secrets of the first member differ, so some digest has it rejected. -/
theorem some_digest_rejects_firstMember :
    letI := exponentCurve
    (∀ [Sha3], MemberAccepted Ats.twoMembers (Ats.SignerConfig.new 1 8 11) 1) ↔
      (11 : Scalar) = 8 := by
  let := exponentCurve
  exact (honest_member_accepted_iff registered_firstMember one_ne_zero).2

omit [Curve] in
/-- The digest that keeps the last bytes has the first member rejected. -/
theorem firstMember_rejected :
    letI := exponentCurve
    letI := truncatingSha3
    ¬ MemberAccepted Ats.twoMembers (Ats.SignerConfig.new 1 8 11) 1 := by
  let := exponentCurve
  let := truncatingSha3
  rw [memberAccepted_iff_valid, verifyMembershipProof_honest_iff registered_firstMember one_ne_zero]
  decide +kernel

end Sigimora.Mcp
