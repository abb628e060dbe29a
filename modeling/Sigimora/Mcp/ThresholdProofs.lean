import Sigimora.Ats.Members
import Sigimora.Mcp.Zkp

/-!
# Threshold proofs

A threshold proof is a count of partial signatures in 16 bits. The count neither
looks at the signers nor survives a longer list.
-/

namespace Sigimora.Mcp

variable [Curve]

namespace ZkpEngine

/-- Count the partial signatures; the count is cut down to 16 bits. -/
def generateThresholdProof (partials : List Ats.PartialSignature) (_threshold : ℕ) :
    Outcome String ThresholdProof :=
  .ok { participantCount := UInt16.ofNat partials.length }

omit [Curve] in
/-- Compare the count with the threshold. -/
def verifyThresholdProof (proof : ThresholdProof) (requiredThreshold : ℕ) : Outcome String Unit :=
  let count := proof.participantCount
  if count.toNat < requiredThreshold then
    Outcome.fail s!"threshold not reached: proved {count}, need {requiredThreshold}"
  else .ok ()

end ZkpEngine

/-- The number of different signers. -/
def distinctSigners (partials : List Ats.PartialSignature) : ℕ :=
  (partials.map Ats.PartialSignature.nodeId).dedup.length

/-- The proof for a threshold passes exactly if there are as many different signers. -/
def CertifiesSigners (partials : List Ats.PartialSignature) (threshold : ℕ) : Prop :=
  (∃ proof, ZkpEngine.generateThresholdProof partials threshold = .ok proof ∧
      ZkpEngine.verifyThresholdProof proof threshold = .ok ()) ↔
    threshold ≤ distinctSigners partials

variable {partials : List Ats.PartialSignature} {threshold : ℕ}

/-- What is compared is the remainder of the length. -/
theorem thresholdProof_passes_iff :
    (∃ proof, ZkpEngine.generateThresholdProof partials threshold = .ok proof ∧
        ZkpEngine.verifyThresholdProof proof threshold = .ok ()) ↔
      threshold ≤ partials.length % 65536 := by
  have hcount : (UInt16.ofNat partials.length).toNat = partials.length % 65536 :=
    UInt16.toNat_ofNat'
  have hverify : ZkpEngine.verifyThresholdProof ⟨UInt16.ofNat partials.length⟩ threshold = .ok () ↔
      threshold ≤ partials.length % 65536 := by
    unfold ZkpEngine.verifyThresholdProof
    simp only [hcount]
    split_ifs with hfew
    · exact iff_of_false nofun (not_le.mpr hfew)
    · exact iff_of_true rfl (not_lt.mp hfew)
  rw [← hverify]
  constructor
  · rintro ⟨proof, hproof, hpasses⟩
    cases hproof
    exact hpasses
  · exact fun hpasses => ⟨_, rfl, hpasses⟩

/-- A proof says what it should unless the threshold is between the two numbers. -/
theorem certifiesSigners_at_iff :
    CertifiesSigners partials threshold ↔
      threshold ≤ min (partials.length % 65536) (distinctSigners partials) ∨
        max (partials.length % 65536) (distinctSigners partials) < threshold := by
  rw [CertifiesSigners, thresholdProof_passes_iff, le_min_iff, max_lt_iff]
  omega

/-- All thresholds are certified just if the signers are counted right in 16 bits. -/
theorem certifiesSigners_all_iff :
    (∀ threshold, CertifiesSigners partials threshold) ↔
      partials.length % 65536 = distinctSigners partials := by
  constructor
  · intro hall
    -- the larger of the two numbers is a threshold between them
    have hlarger := certifiesSigners_at_iff.mp
      (hall (max (partials.length % 65536) (distinctSigners partials)))
    rw [le_min_iff, max_le_iff, max_le_iff] at hlarger
    omega
  · intro hsame threshold
    rw [certifiesSigners_at_iff, hsame, min_self, max_self]
    exact le_or_gt _ _

/-- Below the length at which the count wraps around, the proofs of a list say what they should
exactly if nobody signed twice. -/
theorem certifiesSigners_of_short (hshort : partials.length < 65536) :
    (∀ threshold, CertifiesSigners partials threshold) ↔
      (partials.map Ats.PartialSignature.nodeId).Nodup := by
  let ids := partials.map Ats.PartialSignature.nodeId
  have hlength : ids.length = partials.length := List.length_map _
  rw [certifiesSigners_all_iff, Nat.mod_eq_of_lt hshort, distinctSigners, ← hlength,
    ← List.dedup_eq_self]
  constructor
  · intro hcount
    exact (List.dedup_sublist ids).eq_of_length hcount.symm
  · intro hsame
    rw [hsame]

/-- **Threshold proofs.** A proof says what it should exactly if the threshold is not between the
remainder of the number of partial signatures and the number of different signers. It does so for
every threshold exactly if nobody signed twice, or the count has wrapped around and the remainder
happens to be the number of signers. -/
theorem certifiesSigners_iff (partials : List Ats.PartialSignature) :
    (∀ threshold, CertifiesSigners partials threshold ↔
      threshold ≤ min (partials.length % 65536) (distinctSigners partials) ∨
        max (partials.length % 65536) (distinctSigners partials) < threshold) ∧
    ((∀ threshold, CertifiesSigners partials threshold) ↔
      partials.length < 65536 ∧ (partials.map Ats.PartialSignature.nodeId).Nodup ∨
        65536 ≤ partials.length ∧ partials.length % 65536 = distinctSigners partials) := by
  refine ⟨fun _ => certifiesSigners_at_iff, ?_⟩
  rcases lt_or_ge partials.length 65536 with hshort | hlong
  · have hnot : ¬ 65536 ≤ partials.length := not_le.mpr hshort
    rw [certifiesSigners_of_short hshort]
    simp only [hshort, hnot, true_and, false_and, or_false]
  · have hnot : ¬ partials.length < 65536 := not_lt.mpr hlong
    rw [certifiesSigners_all_iff]
    simp only [hlong, hnot, true_and, false_and, false_or]

omit [Curve] in
/-- One signer passes for two. -/
theorem one_signer_passes_for_two :
    letI := exponentCurve
    ¬ CertifiesSigners [Ats.emptyPartial 1, Ats.emptyPartial 1] 2 := by
  let := exponentCurve
  rw [CertifiesSigners, thresholdProof_passes_iff]
  decide

end Sigimora.Mcp
