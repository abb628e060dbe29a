import Sigimora.Crypto.Accountability
import Sigimora.Crypto.Pedersen
import Sigimora.Library.Run

/-!
# Proactive refresh of threshold keys

A signer adds to its share the value of a line through the origin. Nobody else sees the
slope, and every signer draws its own. The quorums keep their keys only if the slopes that
the signers have drawn, over all their refreshes, fit together.
-/

namespace Sigimora.AtsBls

open Polynomial Interpolation Shamir Pedersen

variable [Curve]

/-- Refresh a share. The commitments to the polynomial are returned with it. -/
def proactiveRefresh (currentShare : Share) (ped : PedersenSetup) (coins : ℕ → Scalar) :
    Share × VssPublic :=
  let refreshPoly := PrivatePoly.randomWithZeroConstant 2 ped coins
  let newShareValue := currentShare.value + (refreshPoly.eval currentShare.index).value
  ({ index := currentShare.index, value := newShareValue }, refreshPoly.commit)

/-- A share after refreshes in turn, each with draws of its own. -/
def refreshedShare (ped : PedersenSetup) (share : Share) (refreshes : List (ℕ → Scalar)) : Share :=
  Run.after (fun current coins => (proactiveRefresh current ped coins).1) share refreshes

/-- The slopes of the lines that were drawn, together. -/
def totalSlope (refreshes : List (ℕ → Scalar)) : Scalar :=
  (refreshes.map fun coins => coins 0).sum

/-- The signers sign with refreshed shares under the key that the quorum had before. -/
def SignsAsBefore (ped : PedersenSetup) (x : ParticipantId → Scalar)
    (refreshes : ParticipantId → List (ℕ → Scalar)) (msg : List UInt8) (threshold : ℕ)
    (signers : List ParticipantId) : Prop :=
  let pk := fun j => x j • (G2Point.generator : G2Point)
  ∃ sig key,
    aggregate (signers.map fun j =>
      signPartial ⟨refreshedShare ped ⟨j, x j⟩ (refreshes j), pk j⟩ msg) threshold = .ok sig ∧
    collectiveKey signers pk = .ok key ∧ sig.verify msg key = true

variable {ped : PedersenSetup} {msg : List UInt8} {threshold : ℕ}
  {signers ids : List ParticipantId}

/-- A refresh moves the share along a line through the origin. -/
theorem proactiveRefresh_fst (share : Share) (coins : ℕ → Scalar) :
    (proactiveRefresh share ped coins).1 =
      ⟨share.index, share.value + Scalar.ofId share.index * coins 0⟩ := by
  have hline : ((PrivatePoly.randomWithZeroConstant 2 ped coins).eval share.index).value =
      Scalar.ofId share.index * coins 0 := by
    rw [PrivatePoly.eval_value rfl]
    change 0 + Scalar.ofId share.index * (coins 0 + Scalar.ofId share.index • 0) = _
    rw [smul_zero, add_zero, zero_add]
  rw [proactiveRefresh, hline]

theorem refreshedShare_eq (share : Share) (refreshes : List (ℕ → Scalar)) :
    refreshedShare ped share refreshes =
      ⟨share.index, share.value + Scalar.ofId share.index * totalSlope refreshes⟩ := by
  induction refreshes generalizing share with
  | nil => simp [refreshedShare, totalSlope]
  | cons coins refreshes ih =>
    have hnext : refreshedShare ped share (coins :: refreshes) =
        refreshedShare ped (proactiveRefresh share ped coins).1 refreshes := rfl
    rw [hnext, ih, proactiveRefresh_fst, totalSlope, totalSlope, List.map_cons, List.sum_cons,
      mul_add, add_assoc]

/-- One quorum keeps its key exactly if what its signers have added cancels out. -/
theorem signsAsBefore_iff {x : ParticipantId → Scalar}
    {refreshes : ParticipantId → List (ℕ → Scalar)} (hnodup : signers.Nodup)
    (hsize : threshold ≤ signers.length) :
    SignsAsBefore ped x refreshes msg threshold signers ↔
      combine (nodes signers) (fun y => y * totalSlope (refreshes (idOf y))) = 0 ∨
        hashToG1 msg (byteLiteral "BLS_ATS") = 0 := by
  let hash : G1Point := hashToG1 msg (byteLiteral "BLS_ATS")
  let value := fun j => x j + Scalar.ofId j * totalSlope (refreshes j)
  let secret := combine (nodes signers) fun y => x (idOf y)
  let moved := combine (nodes signers) fun y => y * totalSlope (refreshes (idOf y))
  have hpartials : (signers.map fun j =>
      signPartial ⟨refreshedShare ped ⟨j, x j⟩ (refreshes j), x j • G2Point.generator⟩ msg) =
        signers.map fun j => ⟨j, value j • hash⟩ :=
    List.map_congr_left fun j _ => by rw [signPartial, refreshedShare_eq]
  have hids : (signers.map fun j => (⟨j, value j • hash⟩ : PartialSignature)).map
      PartialSignature.signerId = signers := by
    rw [List.map_map]
    exact List.map_id _
  have hsum : combine (nodes signers) (fun y => value (idOf y) • hash) =
      (secret + moved) • hash := by
    rw [combine_smul_point, ← combine_add]
    congr 1
    refine combine_congr fun y hy => ?_
    obtain ⟨j, _, rfl⟩ := mem_nodes.mp hy
    rw [idOf_ofId]
  have hsig : aggregate (signers.map fun j => ⟨j, value j • hash⟩) threshold =
      .ok ⟨(secret + moved) • hash, signers, threshold⟩ := by
    rw [aggregate, if_neg (not_lt.mpr (by rwa [List.length_map]))]
    simp only [hids, lagrangeAtZero_eq hnodup, Outcome.ok_bind, Outcome.pure_eq_ok, List.map_map]
    rw [← hsum, ← weightedSum_weights hnodup fun j => value j • hash]
    rfl
  have hkey : collectiveKey signers (fun j => x j • (G2Point.generator : G2Point)) =
      .ok (secret • G2Point.generator) := by
    rw [collectiveKey, lagrangeCombination_eq hnodup, combine_smul_point]
  unfold SignsAsBefore
  simp only [hpartials, hsig, hkey, Except.ok.injEq, exists_eq_left', exists_and_left,
    ThresholdSignature.verify, ctVerifyBlsSignature_smul_iff]
  rw [add_smul, add_eq_left, smul_eq_zero]

/-- **Proactive refresh.** Whatever the signers have drawn, in any number of refreshes: all
quorums keep their keys exactly if the total slopes are values of one polynomial whose degree is
below the threshold by more than one, or there is nothing to sign. -/
theorem quorums_sign_as_before_iff (ped : PedersenSetup) (x : ParticipantId → Scalar)
    (refreshes : ParticipantId → List (ℕ → Scalar)) (msg : List UInt8)
    (hids : ∀ j ∈ ids, j ≠ 0) (hthreshold : 1 ≤ threshold) :
    (∀ signers : List ParticipantId, signers.Nodup → (∀ j ∈ signers, j ∈ ids) →
        threshold ≤ signers.length → SignsAsBefore ped x refreshes msg threshold signers) ↔
      hashToG1 msg (byteLiteral "BLS_ATS") = 0 ∨
        ∃ q : Scalar[X], q.degree < ((threshold - 1 : ℕ) : WithBot ℕ) ∧
          ∀ j ∈ ids, q.eval (Scalar.ofId j) = totalSlope (refreshes j) := by
  by_cases hmsg : hashToG1 msg (byteLiteral "BLS_ATS") = 0
  · refine iff_of_true (fun signers hnodup _ hsize => ?_) (Or.inl hmsg)
    exact (signsAsBefore_iff hnodup hsize).mpr (Or.inr hmsg)
  · have hvalues (q : Scalar[X]) : (∀ j ∈ ids, q.eval (Scalar.ofId j) = totalSlope (refreshes j)) ↔
        ∀ y ∈ nodes ids, q.eval y = totalSlope (refreshes (idOf y)) := by
      simp only [mem_nodes, forall_exists_index, and_imp, forall_apply_eq_imp_iff₂, idOf_ofId]
    rw [or_iff_right hmsg]
    simp only [hvalues]
    rw [← combine_mul_eq_zero_iff hthreshold (zero_notMem_nodes hids)]
    constructor
    · intro h s hs hcard
      obtain ⟨signers, hsublist, hnodup, rfl⟩ := exists_sublist_nodes hs
      rw [card_nodes hnodup] at hcard
      have hsigns := h signers hnodup (fun j hj => hsublist.subset hj) hcard
      exact ((signsAsBefore_iff hnodup hcard).mp hsigns).resolve_right hmsg
    · intro h signers hnodup hsigners hsize
      refine (signsAsBefore_iff hnodup hsize).mpr (Or.inl (h _ (nodes_subset hsigners) ?_))
      rwa [card_nodes hnodup]

omit [Curve] in
/-- Two signers, of whom one refreshes once. -/
theorem quorums_sign_as_before_two :
    letI := exponentCurve
    let refreshes : ParticipantId → List (ℕ → Scalar) :=
      fun j => if j = 1 then [fun _ => 4] else []
    (∀ signers : List ParticipantId, signers.Nodup → (∀ j ∈ signers, j ∈ ([1, 2] : List _)) →
        2 ≤ signers.length →
          SignsAsBefore .deterministic (fun _ => (3 : Scalar)) refreshes [5] 2 signers) ↔
      hashToG1 [5] (byteLiteral "BLS_ATS") = (0 : Scalar) ∨
        ∃ q : Scalar[X], q.degree < ((2 - 1 : ℕ) : WithBot ℕ) ∧
          ∀ j ∈ ([1, 2] : List ParticipantId),
            q.eval (Scalar.ofId j) = totalSlope (refreshes j) := by
  let := exponentCurve
  exact quorums_sign_as_before_iff _ _ _ _ (by simp) one_le_two

end Sigimora.AtsBls
