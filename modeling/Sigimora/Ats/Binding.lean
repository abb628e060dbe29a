import Sigimora.Ats.Signing

/-!
# What verification binds

Verification compares the listed individual keys with the members' keys and
checks the combined signature. It relates neither the list, nor the quorum key,
nor the bitmap commitment to the quorum.
-/

namespace Sigimora.Ats

open Shamir

variable [Curve]

/-- The fields of a signature belong to the quorum that it claims. -/
structure BoundToQuorum (params : NetworkPublicParams) (sig : AtsSignature) : Prop where
  nodup : sig.quorum.Nodup
  size : params.threshold ≤ sig.quorum.length
  member : ∀ id ∈ sig.quorum, id ∈ params.memberPks.map Prod.fst
  /-- The individual keys are those of the quorum members, in order. -/
  individualPks : List.Forall₂ (fun id entry => entry.1 = id ∧ entry ∈ params.memberPks)
    sig.quorum sig.membershipProof.individualPks
  /-- The quorum key is the Lagrange combination of the individual keys. -/
  quorumPk : ∃ lambdas, (lagrangeAtZero sig.quorum : Outcome AtsError _) = .ok lambdas ∧
    sig.membershipProof.quorumPk =
      weightedSum (sig.membershipProof.individualPks.map Prod.snd) lambdas
  bitmapCommitment : ∃ aggregatorId,
    sig.bitmapCommitment = createBitmapCommitment sig.quorum aggregatorId

/-- The relations between the fields that verification does not check. -/
structure QuorumFields (sig : AtsSignature) : Prop where
  nodup : sig.quorum.Nodup
  individualPks : sig.membershipProof.individualPks.map Prod.fst = sig.quorum
  quorumPk : ∃ lambdas, (lagrangeAtZero sig.quorum : Outcome AtsError _) = .ok lambdas ∧
    sig.membershipProof.quorumPk =
      weightedSum (sig.membershipProof.individualPks.map Prod.snd) lambdas
  bitmapCommitment : ∃ aggregatorId,
    sig.bitmapCommitment = createBitmapCommitment sig.quorum aggregatorId

/-- Members that are listed in the order of the quorum. -/
theorem forall₂_members {params : NetworkPublicParams} {quorum : List ParticipantId}
    {pks : List (ParticipantId × G2Point)} :
    List.Forall₂ (fun id entry => entry.1 = id ∧ entry ∈ params.memberPks) quorum pks ↔
      pks.map Prod.fst = quorum ∧ ∀ entry ∈ pks, entry ∈ params.memberPks := by
  constructor
  · intro h
    induction h with
    | nil => simp
    | cons hentry _ ih =>
      refine ⟨?_, ?_⟩
      · rw [List.map_cons, hentry.1, ih.1]
      · exact List.forall_mem_cons.mpr ⟨hentry.2, ih.2⟩
  · rintro ⟨rfl, hmem⟩
    rw [List.forall₂_map_left_iff, List.forall₂_same]
    exact fun entry hentry => ⟨rfl, hmem entry hentry⟩

/-- **Binding.** A signature that verifies is bound to its quorum exactly when
its fields satisfy the relations that verification leaves open. -/
theorem verified_bound_iff (params : NetworkPublicParams) (msg : List UInt8)
    (sig : AtsSignature) :
    (verify params msg sig = true → BoundToQuorum params sig) ↔
      (FailsCheck params msg sig ∨ QuorumFields sig) := by
  rw [or_iff_not_imp_left, ← verify_iff_not_failsCheck]
  refine imp_congr_right fun hverify => ?_
  obtain ⟨hsize, hmember, _⟩ := verify_iff.mp hverify
  constructor
  · intro h
    exact ⟨h.nodup, (forall₂_members.mp h.individualPks).1, h.quorumPk, h.bitmapCommitment⟩
  · intro h
    have hpks := forall₂_members.mpr ⟨h.individualPks, hmember⟩
    refine ⟨h.nodup, hsize, ?_, hpks, h.quorumPk, h.bitmapCommitment⟩
    intro id hid
    rw [← h.individualPks] at hid
    obtain ⟨entry, hentry, rfl⟩ := List.mem_map.mp hid
    exact List.mem_map_of_mem (hmember entry hentry)

omit [Curve] in
/-- A signature that names two unknown signers and lists no keys verifies. -/
theorem verified_without_keys :
    letI := exponentCurve
    ¬ ∀ (params : NetworkPublicParams) (msg : List UInt8) (sig : AtsSignature),
      verify params msg sig = true → BoundToQuorum params sig := by
  let := exponentCurve
  intro h
  let sig : AtsSignature := ⟨(7 : Scalar) • hashMessage [], [8, 9], 0, [], ⟨0, []⟩, 0⟩
  have hverify : verify twoMembers [] sig = true := by
    refine verify_iff.mpr ⟨le_rfl, by simp [sig], ?_⟩
    have hpk : twoMembers.collectivePk = (7 : Scalar) • (G2Point.generator : G2Point) :=
      (mul_one (7 : Scalar)).symm
    rw [hpk]
    exact ctVerifyBlsSignature_smul_iff.mpr rfl
  have hmember := (h twoMembers [] sig hverify).member 8 (by simp [sig])
  simp [twoMembers] at hmember

end Sigimora.Ats
