import Sigimora.Ats.Scheme
import Sigimora.Library.Horner
import Sigimora.Math.ExponentCurve

/-!
# Correctness of threshold signing

When the members' keys lie on one polynomial, any list of sufficiently many
honest partial signatures aggregates to the same signature: the multiple of the
message point by the value of the polynomial at zero.
-/

namespace Sigimora.Ats

open Interpolation Shamir

variable [Curve]

/-! ## Aggregation -/

/-- The membership proof's keys for a quorum. -/
def quorumPks (params : NetworkPublicParams) (quorum : List ParticipantId) :
    List (ParticipantId × G2Point) :=
  quorum.filterMap fun id => params.memberPks.find? fun entry => entry.1 == id

/-- The interpolation weights of a quorum, in its order. -/
def quorumWeights (quorum : List ParticipantId) : List Scalar :=
  quorum.map fun id => weight (nodes quorum) (Scalar.ofId id)

/-- Enough partial signatures of distinct signers aggregate. -/
theorem aggregate_eq_ok (partials : List PartialSignature) {params : NetworkPublicParams}
    (hsize : params.threshold ≤ partials.length)
    (hnodup : (partials.map PartialSignature.nodeId).Nodup) (epoch : UInt64)
    (aggregatorId : ParticipantId) :
    aggregate partials params epoch aggregatorId = .ok {
      combinedSig := weightedSum (partials.map PartialSignature.sigma)
        (quorumWeights (partials.map PartialSignature.nodeId))
      quorum := partials.map PartialSignature.nodeId
      bitmapCommitment :=
        createBitmapCommitment (partials.map PartialSignature.nodeId) aggregatorId
      encryptedTags := partials.map PartialSignature.encryptedTag
      membershipProof := {
        quorumPk := weightedSum
          ((quorumPks params (partials.map PartialSignature.nodeId)).map Prod.snd)
          (quorumWeights (partials.map PartialSignature.nodeId))
        individualPks := quorumPks params (partials.map PartialSignature.nodeId) }
      epoch } := by
  rw [aggregate, if_neg (not_lt.mpr hsize)]
  simp only [lagrangeAtZero_eq hnodup, Outcome.ok_bind, Outcome.pure_eq_ok]
  rfl

/-- Enough partial signatures with a repeated signer panic. -/
theorem aggregate_of_not_nodup {partials : List PartialSignature} {params : NetworkPublicParams}
    (hsize : params.threshold ≤ partials.length)
    (hrepeated : ¬ (partials.map PartialSignature.nodeId).Nodup) (epoch : UInt64)
    (aggregatorId : ParticipantId) :
    aggregate partials params epoch aggregatorId =
      Outcome.panic "Lagrange denominator must be invertible (indices must be distinct)" := by
  rw [aggregate, if_neg (not_lt.mpr hsize)]
  simp only [lagrangeAtZero_of_not_nodup hrepeated]
  rfl

/-- Aggregation returns an error exactly when there are too few partial signatures. -/
theorem exists_aggregate_eq_err_iff {partials : List PartialSignature}
    {params : NetworkPublicParams} {epoch : UInt64} {aggregatorId : ParticipantId} :
    (∃ e, aggregate partials params epoch aggregatorId = .error (.err e)) ↔
      partials.length < params.threshold := by
  by_cases hsize : partials.length < params.threshold
  · refine iff_of_true ?_ hsize
    rw [aggregate, if_pos hsize]
    exact ⟨_, rfl⟩
  · refine iff_of_false ?_ hsize
    rintro ⟨e, he⟩
    by_cases hnodup : (partials.map PartialSignature.nodeId).Nodup
    · rw [aggregate_eq_ok partials (not_lt.mp hsize) hnodup] at he
      cases he
    · rw [aggregate_of_not_nodup (not_lt.mp hsize) hnodup] at he
      cases he

/-- The three checks of verification. -/
theorem verify_iff {params : NetworkPublicParams} {msg : List UInt8} {sig : AtsSignature} :
    verify params msg sig = true ↔
      params.threshold ≤ sig.quorum.length ∧
      (∀ entry ∈ sig.membershipProof.individualPks, entry ∈ params.memberPks) ∧
      ctVerifyBlsSignature sig.combinedSig (hashMessage msg) params.collectivePk = true := by
  have hmember (entry : ParticipantId × G2Point) :
      (params.memberPks.any fun mem => mem.1 == entry.1 && mem.2 == entry.2) = true ↔
        entry ∈ params.memberPks := by
    simp only [List.any_eq_true, Bool.and_eq_true, beq_iff_eq]
    constructor
    · rintro ⟨mem, hmem, h1, h2⟩
      rwa [← Prod.ext h1 h2]
    · intro h
      exact ⟨entry, h, rfl, rfl⟩
  have hmembers : (sig.membershipProof.individualPks.all fun entry =>
      params.memberPks.any fun mem => mem.1 == entry.1 && mem.2 == entry.2) = true ↔
      ∀ entry ∈ sig.membershipProof.individualPks, entry ∈ params.memberPks := by
    simp only [List.all_eq_true, hmember]
  rw [← hmembers, verify]
  by_cases hsize : sig.quorum.length < params.threshold
  · simp [hsize]
  · rw [if_neg hsize]
    split
    · rename_i hinvalid
      simp [hinvalid]
    · rename_i hvalid
      split
      · rename_i hsig
        simp [hsig]
      · rename_i hsig
        exact iff_of_true rfl ⟨not_lt.mp hsize, not_not.mp hvalid, not_not.mp hsig⟩

/-- Some field is not what verification asks for: the quorum is too small, a
listed key is no member's, or the combined signature is not one of the message. -/
def FailsCheck (params : NetworkPublicParams) (msg : List UInt8) (sig : AtsSignature) : Prop :=
  sig.quorum.length < params.threshold ∨
    (∃ entry ∈ sig.membershipProof.individualPks, entry ∉ params.memberPks) ∨
    pairing sig.combinedSig G2Point.generator ≠ pairing (hashMessage msg) params.collectivePk

/-- Verification accepts exactly when no check fails. -/
theorem verify_iff_not_failsCheck {params : NetworkPublicParams} {msg : List UInt8}
    {sig : AtsSignature} : verify params msg sig = true ↔ ¬ FailsCheck params msg sig := by
  rw [verify_iff, ctVerifyBlsSignature_iff, FailsCheck]
  push Not
  rfl

/-! ## Honest signers -/

/-- The members' keys are the multiples of the generator by the shares of one secret. -/
structure ValidParams (params : NetworkPublicParams) (f : Polynomial Scalar) : Prop where
  threshold_pos : 1 ≤ params.threshold
  degree_lt : f.degree < params.threshold
  nodup : (params.memberPks.map Prod.fst).Nodup
  ne_zero : ∀ entry ∈ params.memberPks, entry.1 ≠ 0
  memberPks : ∀ entry ∈ params.memberPks,
    entry.2 = f.eval (Scalar.ofId entry.1) • G2Point.generator
  collectivePk : params.collectivePk = f.eval 0 • G2Point.generator

/-- A member with its long-term secret and the draws for one tag. -/
structure Signer where
  id : ParticipantId
  ltSk : Scalar
  coins : TagCoins

/-- The partial signature of a signer whose key share is given. -/
def Signer.sign [Cipher] (signer : Signer) (share : ParticipantId → Scalar) (msg : List UInt8)
    (trackingPk : G2Point) : PartialSignature :=
  signPartial (SignerConfig.new signer.id (share signer.id) signer.ltSk) msg trackingPk
    signer.coins

/-- Enough members, each of them once. -/
structure ValidQuorum (params : NetworkPublicParams) (signers : List Signer) : Prop where
  nodup : (signers.map Signer.id).Nodup
  member : ∀ signer ∈ signers, signer.id ∈ params.memberPks.map Prod.fst
  size : params.threshold ≤ signers.length

/-- Every member has an entry that is found, its first. -/
theorem exists_find?_memberPks {params : NetworkPublicParams} {id : ParticipantId}
    (hid : id ∈ params.memberPks.map Prod.fst) :
    ∃ pk, (id, pk) ∈ params.memberPks ∧
      params.memberPks.find? (fun entry => entry.1 == id) = some (id, pk) := by
  obtain ⟨entry, hentry, rfl⟩ := List.mem_map.mp hid
  cases hfind : params.memberPks.find? fun e => e.1 == entry.1 with
  | none =>
    have hnone := List.find?_eq_none.mp hfind entry hentry
    simp at hnone
  | some found =>
    have hid : found.1 = entry.1 := by simpa using List.find?_some hfind
    rw [← hid]
    exact ⟨found.2, List.mem_of_find?_eq_some hfind, rfl⟩

/-- A member is found with the key of its share. -/
theorem find?_memberPks {params : NetworkPublicParams} {f : Polynomial Scalar}
    (hparams : ValidParams params f) {id : ParticipantId}
    (hid : id ∈ params.memberPks.map Prod.fst) :
    params.memberPks.find? (fun entry => entry.1 == id) =
      some (id, f.eval (Scalar.ofId id) • G2Point.generator) := by
  obtain ⟨pk, hmem, hfind⟩ := exists_find?_memberPks hid
  rw [hfind, ← hparams.memberPks _ hmem]

/-- The keys of a quorum of members, in its order. -/
theorem quorumPks_of_members {params : NetworkPublicParams} {quorum : List ParticipantId}
    {key : ParticipantId → G2Point}
    (hkey : ∀ id ∈ quorum,
      params.memberPks.find? (fun entry => entry.1 == id) = some (id, key id)) :
    quorumPks params quorum = quorum.map fun id => (id, key id) := by
  rw [quorumPks, ← List.filterMap_eq_map]
  exact List.filterMap_congr hkey

/-- The quorum of an honest list of signers, with its keys. -/
theorem quorumPks_eq {params : NetworkPublicParams} {f : Polynomial Scalar}
    (hparams : ValidParams params f) {quorum : List ParticipantId}
    (hmem : ∀ id ∈ quorum, id ∈ params.memberPks.map Prod.fst) :
    quorumPks params quorum =
      quorum.map fun id => (id, f.eval (Scalar.ofId id) • G2Point.generator) :=
  quorumPks_of_members fun id hid => find?_memberPks hparams (hmem id hid)

/-- Honest partial signatures combine to the multiple of the message point by the secret. -/
theorem combined_honest [Cipher] {params : NetworkPublicParams} {f : Polynomial Scalar}
    (hdegree : f.degree < params.threshold) {signers : List Signer}
    (hquorum : ValidQuorum params signers) {share : ParticipantId → Scalar}
    (hshare : ∀ signer ∈ signers, share signer.id = f.eval (Scalar.ofId signer.id))
    (msg : List UInt8) (trackingPk : G2Point) :
    weightedSum ((signers.map fun s => s.sign share msg trackingPk).map PartialSignature.sigma)
        (quorumWeights (signers.map Signer.id)) = f.eval 0 • hashMessage msg := by
  refine weightedSum_smul hquorum.nodup ?_ ?_
  · rw [List.length_map]
    exact lt_of_lt_of_le hdegree (by exact_mod_cast hquorum.size)
  · rw [List.map_map, List.map_map]
    refine List.map_congr_left fun signer hsigner => ?_
    simp only [Function.comp_apply, Signer.sign, signPartial, SignerConfig.new,
      hshare signer hsigner]

/-- **Threshold signing.** Every honest quorum aggregates, the result verifies
and does not depend on the quorum, the quorum key is the collective key, and
the signature verifies for another message only if the secret maps both message
points to the same point. -/
theorem threshold_signing [Cipher] {params : NetworkPublicParams} {f : Polynomial Scalar}
    (hparams : ValidParams params f) {share : ParticipantId → Scalar}
    (hshare : ∀ entry ∈ params.memberPks, share entry.1 = f.eval (Scalar.ofId entry.1))
    (msg : List UInt8) (trackingPk : G2Point) {signers : List Signer}
    (hquorum : ValidQuorum params signers) (epoch : UInt64) (aggregatorId : ParticipantId) :
    ∃ sig, aggregate (signers.map fun s => s.sign share msg trackingPk) params epoch
        aggregatorId = .ok sig ∧
      verify params msg sig = true ∧
      sig.membershipProof.quorumPk = params.collectivePk ∧
      (∀ others, ValidQuorum params others → ∀ epoch' aggregatorId' sig',
        aggregate (others.map fun s => s.sign share msg trackingPk) params epoch'
          aggregatorId' = .ok sig' → sig'.combinedSig = sig.combinedSig) ∧
      ∀ msg', verify params msg' sig = true →
        f.eval 0 • hashMessage msg' = f.eval 0 • hashMessage msg := by
  have hids (quorum : List Signer) : (quorum.map fun s => s.sign share msg trackingPk).map
      PartialSignature.nodeId = quorum.map Signer.id := by
    rw [List.map_map]
    rfl
  have hshares {quorum : List Signer} (h : ValidQuorum params quorum) :
      ∀ signer ∈ quorum, share signer.id = f.eval (Scalar.ofId signer.id) := by
    intro signer hsigner
    obtain ⟨entry, hentry, hid⟩ := List.mem_map.mp (h.member signer hsigner)
    rw [← hid]
    exact hshare entry hentry
  have haggregate {quorum : List Signer} (h : ValidQuorum params quorum) (epoch : UInt64)
      (aggregatorId : ParticipantId) :=
    aggregate_eq_ok (quorum.map fun s => s.sign share msg trackingPk)
      (by rw [List.length_map]; exact h.size) (by rw [hids]; exact h.nodup) epoch aggregatorId
  have hcombined {quorum : List Signer} (h : ValidQuorum params quorum) :=
    combined_honest hparams.degree_lt h (hshares h) msg trackingPk
  have hpks : quorumPks params (signers.map Signer.id) = (signers.map Signer.id).map
      fun id => (id, f.eval (Scalar.ofId id) • G2Point.generator) :=
    quorumPks_eq hparams fun id hid => by
      obtain ⟨signer, hsigner, rfl⟩ := List.mem_map.mp hid
      exact hquorum.member signer hsigner
  refine ⟨_, haggregate hquorum epoch aggregatorId, ?_, ?_, ?_, ?_⟩
  · refine verify_iff.mpr ⟨?_, ?_, ?_⟩
    · simp only [List.length_map]
      exact hquorum.size
    · intro entry hentry
      obtain ⟨id, _, hfind⟩ := List.mem_filterMap.mp hentry
      exact List.mem_of_find?_eq_some hfind
    · simp only [hids, hcombined hquorum, hparams.collectivePk]
      exact ctVerifyBlsSignature_smul_iff.mpr rfl
  · simp only [hids, hpks, hparams.collectivePk]
    refine weightedSum_smul hquorum.nodup ?_ ?_
    · rw [List.length_map]
      exact lt_of_lt_of_le hparams.degree_lt (by exact_mod_cast hquorum.size)
    · rw [List.map_map]
      rfl
  · intro others hothers epoch' aggregatorId' sig' h
    rw [haggregate hothers epoch' aggregatorId', Except.ok.injEq] at h
    rw [← h]
    simp only [hids, hcombined hothers, hcombined hquorum]
  · intro msg' h
    have hvalid := (verify_iff.mp h).2.2
    rw [hparams.collectivePk, ctVerifyBlsSignature_smul_iff] at hvalid
    rw [← hvalid]
    simp only [hids, hcombined hquorum]

/-- Two members whose keys lie on `7 + x`. -/
def twoMembers : @NetworkPublicParams exponentCurve :=
  letI := exponentCurve
  { n := 2
    threshold := 2
    collectivePk := (7 : Scalar)
    trackingPk := (3 : Scalar)
    memberPks := [(1, (8 : Scalar)), (2, (9 : Scalar))]
    memberLtPks := [(1, (11 : Scalar)), (2, (12 : Scalar))] }

omit [Curve] in
/-- The parameters of the two members are valid. -/
theorem validParams_twoMembers :
    @ValidParams exponentCurve twoMembers (Horner.toPolynomial [7, 1]) := by
  let := exponentCurve
  refine ⟨by decide, Horner.degree_toPolynomial_lt [7, 1], by decide, by decide, ?_, ?_⟩
  · intro entry hentry
    simp only [twoMembers, List.mem_cons, List.not_mem_nil, or_false] at hentry
    rcases hentry with rfl | rfl
    · rw [Horner.eval_toPolynomial]
      decide +kernel
    · rw [Horner.eval_toPolynomial]
      decide +kernel
  · rw [Horner.eval_toPolynomial]
    decide +kernel

omit [Curve] in
/-- Both members sign, the second one first. -/
theorem threshold_signing_twoMembers :
    letI := exponentCurve
    letI := plainCipher
    ∃ sig, aggregate ([⟨2, 5, ⟨1, 0⟩⟩, ⟨1, 6, ⟨2, 0⟩⟩].map fun s : Signer =>
        s.sign (fun id => 7 + Scalar.ofId id) [1] (3 : Scalar)) twoMembers 0 2 = .ok sig ∧
      verify twoMembers [1] sig = true := by
  let := exponentCurve
  let := plainCipher
  let share (id : ParticipantId) : Scalar := 7 + Scalar.ofId id
  have hshare : ∀ entry ∈ twoMembers.memberPks, share entry.1 =
      (Horner.toPolynomial [7, 1]).eval (Scalar.ofId entry.1) := by
    intro entry _
    simp [share]
  have hquorum : ValidQuorum twoMembers [⟨2, 5, ⟨1, 0⟩⟩, ⟨1, 6, ⟨2, 0⟩⟩] :=
    ⟨by decide, by decide, by decide⟩
  obtain ⟨sig, haggregate, hverify, _⟩ :=
    threshold_signing validParams_twoMembers hshare [1] (3 : Scalar) hquorum 0 2
  exact ⟨sig, haggregate, hverify⟩

end Sigimora.Ats
