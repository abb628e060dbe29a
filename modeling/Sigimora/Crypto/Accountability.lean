import Sigimora.Crypto.BlsThreshold
import Sigimora.Math.ExponentCurve

/-!
# Accountability of partial signatures

Partial signatures are combined with weights, and so are the public keys of their
signers. How far a signature is off under a key is linear in both, so the combined
signature is off by the weighted sum of what the partial signatures are off by. No
weight vanishes: a single wrong partial signature always shows.
-/

namespace Sigimora

open Interpolation Shamir

variable [Curve]

/-! ## Weighted checks -/

section Defects

variable {α : Type} {hash : G1Point}

/-- How far a signature is off under a key. -/
def defect (hash sig : G1Point) (pk : G2Point) : GtElement :=
  pairing sig G2Point.generator - pairing hash pk

/-- A signature is valid just if it has no defect. -/
theorem ctVerifyBlsSignature_iff_defect {sig : G1Point} {pk : G2Point} :
    ctVerifyBlsSignature sig hash pk = true ↔ defect hash sig pk = 0 := by
  rw [ctVerifyBlsSignature_iff, defect, sub_eq_zero]

omit [Curve] in
/-- A weighted sum over the entries of one list. -/
theorem weightedSum_map {M : Type} [AddCommGroup M] [Module Scalar M] (entries : List α)
    (value : α → M) (lambda : α → Scalar) :
    weightedSum (entries.map value) (entries.map lambda) =
      (entries.map fun entry => lambda entry • value entry).sum := by
  have hloop (acc : M) : ((entries.map value).zip (entries.map lambda)).foldl
      (fun acc entry => acc + entry.2 • entry.1) acc =
        acc + (entries.map fun entry => lambda entry • value entry).sum := by
    induction entries generalizing acc with
    | nil => exact (add_zero acc).symm
    | cons entry entries ih =>
      rw [List.map_cons, List.map_cons, List.zip_cons_cons, List.foldl_cons, ih, List.map_cons,
        List.sum_cons, add_assoc]
  rw [weightedSum, hloop, zero_add]

/-- What is combined is off by the combination of what the entries are off by. -/
theorem defect_weightedSum (entries : List α) (sigma : α → G1Point) (pk : α → G2Point)
    (lambda : α → Scalar) :
    defect hash (weightedSum (entries.map sigma) (entries.map lambda))
        (weightedSum (entries.map pk) (entries.map lambda)) =
      (entries.map fun entry => lambda entry • defect hash (sigma entry) (pk entry)).sum := by
  rw [weightedSum_map, weightedSum_map]
  induction entries with
  | nil => simp only [List.map_nil, List.sum_nil, defect, pairing, map_zero, LinearMap.zero_apply,
      sub_zero]
  | cons entry entries ih =>
    simp only [List.map_cons, List.sum_cons, ← ih]
    simp only [defect, pairing, map_add, map_smul, LinearMap.add_apply, LinearMap.smul_apply,
      smul_sub]
    abel

omit [Curve] in
/-- A sum to which only one entry can contribute. -/
theorem sum_map_eq_single {M : Type} [AddCommGroup M] {entries : List α} {value : α → M}
    (hnodup : entries.Nodup) {entry : α} (hentry : entry ∈ entries)
    (hothers : ∀ other ∈ entries, other ≠ entry → value other = 0) :
    (entries.map value).sum = value entry := by
  obtain ⟨before, after, rfl⟩ := List.append_of_mem hentry
  have hnone {others : List α} (hsubset : others ⊆ before ++ entry :: after)
      (hnot : entry ∉ others) : (others.map value).sum = 0 := by
    refine List.sum_eq_zero fun v hv => ?_
    obtain ⟨other, hother, rfl⟩ := List.mem_map.mp hv
    exact hothers other (hsubset hother) fun hsame => hnot (hsame ▸ hother)
  obtain ⟨hbefore, hafter⟩ : entry ∉ before ∧ entry ∉ after := by
    rw [List.nodup_middle, List.nodup_cons, List.mem_append, not_or] at hnodup
    exact hnodup.1
  rw [List.map_append, List.map_cons, List.sum_append, List.sum_cons,
    hnone (List.subset_append_left _ _) hbefore, zero_add,
    hnone (fun _ h => List.mem_append_right _ (List.mem_cons_of_mem _ h)) hafter, add_zero]

/-- When all entries but one verify, the combination verifies exactly if this one does. -/
theorem ctVerifyBlsSignature_weightedSum_iff {entries : List α} (hnodup : entries.Nodup)
    {sigma : α → G1Point} {pk : α → G2Point} {lambda : α → Scalar} {entry : α}
    (hentry : entry ∈ entries) (hlambda : lambda entry ≠ 0)
    (hothers : ∀ other ∈ entries, other ≠ entry →
      ctVerifyBlsSignature (sigma other) hash (pk other) = true) :
    ctVerifyBlsSignature (weightedSum (entries.map sigma) (entries.map lambda)) hash
        (weightedSum (entries.map pk) (entries.map lambda)) = true ↔
      ctVerifyBlsSignature (sigma entry) hash (pk entry) = true := by
  rw [ctVerifyBlsSignature_iff_defect, defect_weightedSum,
    sum_map_eq_single hnodup hentry fun other hother hne => by
      rw [ctVerifyBlsSignature_iff_defect.mp (hothers other hother hne), smul_zero],
    ctVerifyBlsSignature_iff_defect]
  exact smul_eq_zero_iff_right hlambda

/-- When all entries verify, so does the combination. -/
theorem ctVerifyBlsSignature_weightedSum {entries : List α} {sigma : α → G1Point}
    {pk : α → G2Point} (lambda : α → Scalar)
    (hall : ∀ entry ∈ entries, ctVerifyBlsSignature (sigma entry) hash (pk entry) = true) :
    ctVerifyBlsSignature (weightedSum (entries.map sigma) (entries.map lambda)) hash
      (weightedSum (entries.map pk) (entries.map lambda)) = true := by
  rw [ctVerifyBlsSignature_iff_defect, defect_weightedSum]
  refine List.sum_eq_zero fun v hv => ?_
  obtain ⟨entry, hentry, rfl⟩ := List.mem_map.mp hv
  rw [ctVerifyBlsSignature_iff_defect.mp (hall entry hentry), smul_zero]

end Defects

/-! ## Signers with keys of their own -/

namespace AtsBls

/-- A threshold signing key with one share of the group secret. -/
structure ThresholdSigningKey where
  share : Share
  individualPk : G2Point

/-- The partial signature of a key. -/
def signPartial (sk : ThresholdSigningKey) (msg : List UInt8) : PartialSignature :=
  let h := hashToG1 msg (byteLiteral "BLS_ATS")
  { signerId := sk.share.index, sigma := sk.share.value • h }

/-- Check a partial signature under the key of its signer. -/
def verifyPartial (partialSig : PartialSignature) (ipk : G2Point) (msg : List UInt8) : Bool :=
  let h := hashToG1 msg (byteLiteral "BLS_ATS")
  ctVerifyBlsSignature partialSig.sigma h ipk

namespace ThresholdSignature

/-- Check a signature under the key of the quorum. -/
def verify (sig : ThresholdSignature) (msg : List UInt8) (groupPk : G2Point) : Bool :=
  let h := hashToG1 msg (byteLiteral "BLS_ATS")
  ctVerifyBlsSignature sig.sigma h groupPk

def whoSigned (sig : ThresholdSignature) : List ParticipantId := sig.signers

end ThresholdSignature

/-- The key of a quorum, `∏ pk_j^{λ_j}`. -/
def collectiveKey (signers : List ParticipantId) (pk : ParticipantId → G2Point) :
    Outcome CryptoError G2Point := lagrangeCombination signers pk

/-- A key accepts its partial signature of a message and no other point. -/
theorem verifyPartial_iff {sk : ThresholdSigningKey}
    (hpk : sk.individualPk = sk.share.value • G2Point.generator) {partialSig : PartialSignature}
    {msg : List UInt8} :
    verifyPartial partialSig sk.individualPk msg = true ↔
      partialSig.sigma = (signPartial sk msg).sigma := by
  rw [verifyPartial, hpk, ctVerifyBlsSignature_smul_iff, signPartial]

variable {partials : List PartialSignature} {threshold : ℕ}

/-- What enough partial signatures of different signers are combined to. -/
theorem aggregate_eq_ok (hnodup : (partials.map PartialSignature.signerId).Nodup)
    (hsize : threshold ≤ partials.length) :
    aggregate partials threshold = .ok {
      sigma := weightedSum (partials.map PartialSignature.sigma) (partials.map fun partialSig =>
        weight (nodes (partials.map PartialSignature.signerId))
          (Scalar.ofId partialSig.signerId))
      signers := partials.map PartialSignature.signerId
      threshold } := by
  rw [aggregate, if_neg (not_lt.mpr hsize)]
  simp only [lagrangeAtZero_eq hnodup, Outcome.ok_bind, Outcome.pure_eq_ok, List.map_map]
  rfl

theorem collectiveKey_eq_ok (hnodup : (partials.map PartialSignature.signerId).Nodup)
    (pk : ParticipantId → G2Point) :
    collectiveKey (partials.map PartialSignature.signerId) pk =
      .ok (weightedSum (partials.map fun partialSig => pk partialSig.signerId)
        (partials.map fun partialSig => weight (nodes (partials.map PartialSignature.signerId))
          (Scalar.ofId partialSig.signerId))) := by
  rw [collectiveKey, lagrangeCombination, lagrangeAtZero_eq hnodup, Outcome.ok_bind,
    Outcome.pure_eq_ok, List.map_map, List.map_map]
  rfl

/-- The partial signatures combine to a signature that names their signers and blames them
rightly: it verifies under the key of the quorum if every partial signature passes its own check,
and a single one that does not pass shows. What does not pass is not what the holder of the key
signs. -/
def Accountable (partials : List PartialSignature) (threshold : ℕ) (pk : ParticipantId → G2Point)
    (msg : List UInt8) : Prop :=
  ∃ sig key, aggregate partials threshold = .ok sig ∧
    sig.whoSigned = partials.map PartialSignature.signerId ∧
    collectiveKey sig.whoSigned pk = .ok key ∧
    ((∀ partialSig ∈ partials, verifyPartial partialSig (pk partialSig.signerId) msg = true) →
      sig.verify msg key = true) ∧
    (∀ suspect ∈ partials, (∀ partialSig ∈ partials, partialSig ≠ suspect →
        verifyPartial partialSig (pk partialSig.signerId) msg = true) →
      (sig.verify msg key = true ↔ verifyPartial suspect (pk suspect.signerId) msg = true)) ∧
    ∀ sk : ThresholdSigningKey, sk.individualPk = sk.share.value • G2Point.generator →
      ∀ partialSig ∈ partials, (verifyPartial partialSig sk.individualPk msg = true ↔
        partialSig.sigma = (signPartial sk msg).sigma)

/-- **Accountability.** Enough partial signatures of different signers, whatever they are, are
combined accountably. -/
theorem aggregate_accountable (pk : ParticipantId → G2Point) (msg : List UInt8)
    (hnodup : (partials.map PartialSignature.signerId).Nodup)
    (hids : ∀ partialSig ∈ partials, partialSig.signerId ≠ 0)
    (hsize : threshold ≤ partials.length) : Accountable partials threshold pk msg := by
  refine ⟨_, _, aggregate_eq_ok hnodup hsize, rfl, collectiveKey_eq_ok hnodup pk, ?_, ?_, ?_⟩
  · exact ctVerifyBlsSignature_weightedSum _
  · intro suspect hsuspect hothers
    have hzero : (0 : Scalar) ∉ nodes (partials.map PartialSignature.signerId) := by
      refine zero_notMem_nodes fun id hid => ?_
      obtain ⟨partialSig, hpartial, rfl⟩ := List.mem_map.mp hid
      exact hids partialSig hpartial
    exact ctVerifyBlsSignature_weightedSum_iff (List.Nodup.of_map _ hnodup) hsuspect
      (weight_ne_zero hzero _) hothers
  · exact fun sk hpk partialSig _ => verifyPartial_iff hpk

omit [Curve] in
/-- Two signers, of whom the second signs with another key than its own. -/
theorem aggregate_accountable_two :
    letI := exponentCurve
    Accountable [⟨1, (15 : Scalar)⟩, ⟨2, (35 : Scalar)⟩] 2
      (fun id => if id = 1 then (3 : Scalar) else (4 : Scalar)) [5] := by
  let := exponentCurve
  exact aggregate_accountable _ [5] (by decide) (by simp) le_rfl

end AtsBls

end Sigimora
