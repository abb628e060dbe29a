import Mathlib.RingTheory.Polynomial.DegreeLT
import Sigimora.Crypto.DkgRun
import Sigimora.Math.ExponentCurve

/-!
# Correctness of the key generation

After a complete exchange the key shares of the parties are the values of one
polynomial, the sum of the dealt ones, and the collective key is the multiple
of the generator by its value at zero. Everything that threshold signing needs
follows by interpolation.
-/

namespace Sigimora

open Pedersen Shamir

variable [Curve]

section Joint

variable (n t : ℕ) (ped : PedersenSetup) (coins : ParticipantId → ℕ → Scalar)

/-- The sum of the dealt polynomials. -/
noncomputable def jointPolynomial : Polynomial Scalar :=
  ((participants n).map fun i => (dealtPoly t ped coins i).toPolynomial).sum

/-- The sum of the shares dealt to the party `j`. -/
def keyShare (j : ParticipantId) : Scalar :=
  ((participants n).map fun i => ((dealtPoly t ped coins i).eval j).value).sum

omit [Curve] in
/-- The sum of the drawn secrets. -/
def collectiveSecret : Scalar := ((participants n).map fun i => dealtSecret coins i).sum

/-- The joint polynomial is of the degree that the threshold asks for. -/
theorem degree_jointPolynomial_lt :
    (jointPolynomial n t ped coins).degree < (max t 1 : ℕ) := by
  rw [← Polynomial.mem_degreeLT, jointPolynomial]
  refine list_sum_mem fun p hp => ?_
  obtain ⟨i, _, rfl⟩ := List.mem_map.mp hp
  exact Polynomial.mem_degreeLT.mpr (PrivatePoly.degree_randomWithSecret_lt _ _ _ _)

/-- The shares of the keys lie on the joint polynomial. -/
theorem eval_jointPolynomial (j : ParticipantId) :
    (jointPolynomial n t ped coins).eval (Scalar.ofId j) = keyShare n t ped coins j := by
  rw [jointPolynomial, Polynomial.eval_listSum, List.map_map, keyShare]
  congr 1
  refine List.map_congr_left fun i _ => ?_
  exact (PrivatePoly.eval_randomWithSecret _ _ _ _ j).symm

/-- The joint polynomial takes the collective secret at zero. -/
theorem eval_zero_jointPolynomial :
    (jointPolynomial n t ped coins).eval 0 = collectiveSecret n coins := by
  rw [jointPolynomial, Polynomial.eval_listSum, List.map_map, collectiveSecret]
  congr 1
  exact List.map_congr_left fun i _ => PrivatePoly.eval_zero_randomWithSecret _ _ _ _

end Joint

variable {n t : ℕ} {ped : PedersenSetup} {coins : ParticipantId → ℕ → Scalar}

/-! ## Finished parties -/

/-- A party that heard no complaints qualifies everybody. -/
theorem qualSet_partyAfter (deliveries : List Delivery) (j : ParticipantId) :
    (partyAfter n t ped coins deliveries j).buildQualSet.qualSet = participants n :=
  DkgState.qualSet_buildQualSet rfl

/-- Every participant finds itself qualified. -/
theorem qualified_partyAfter {j : ParticipantId} (hj : j ∈ participants n)
    (deliveries : List Delivery) : (partyAfter n t ped coins deliveries j).buildQualSet.myId ∈
      (partyAfter n t ped coins deliveries j).buildQualSet.qualSet := by
  rwa [qualSet_partyAfter]

/-- All shares of a complete exchange are from qualified parties. -/
theorem shares_qualified {deliveries : List Delivery} (h : deliveries.Perm (exchanges n))
    {j : ParticipantId} (hj : j ∈ participants n) :
    ∀ entry ∈ (partyAfter n t ped coins deliveries j).receivedShares,
      entry.1 ∈ (partyAfter n t ped coins deliveries j).buildQualSet.qualSet := by
  intro entry hentry
  obtain ⟨i, hi, rfl⟩ := List.mem_map.mp hentry
  rw [qualSet_partyAfter]
  exact List.mem_of_mem_erase ((perm_shareSenders h hj).mem_iff.mp hi)

/-- All public keys of a complete exchange are from qualified parties. -/
theorem publicKeys_qualified {deliveries : List Delivery} (h : deliveries.Perm (exchanges n))
    {j : ParticipantId} (hj : j ∈ participants n) :
    ∀ entry ∈ (partyAfter n t ped coins deliveries j).receivedPublicKeys,
      entry.1 ∈ (partyAfter n t ped coins deliveries j).buildQualSet.qualSet := by
  intro entry hentry
  obtain ⟨i, hi, rfl⟩ := List.mem_map.mp hentry
  rw [qualSet_partyAfter]
  exact List.mem_of_mem_erase ((perm_commitSenders h hj).mem_iff.mp hi)

/-- The aggregated share does not depend on the order of the deliveries. -/
theorem computeSecretShare_partyAfter {deliveries : List Delivery}
    (h : deliveries.Perm (exchanges n)) {j : ParticipantId} (hj : j ∈ participants n) :
    (partyAfter n t ped coins deliveries j).buildQualSet.computeSecretShare =
      some (keyShare n t ped coins j) := by
  have hown : (partyAfter n t ped coins deliveries j).buildQualSet.myVssPoly =
      some (dealtPoly t ped coins j) := rfl
  rw [DkgState.computeSecretShare_eq (qualified_partyAfter hj deliveries) hown
      (shares_qualified h hj), keyShare,
    ← List.sum_map_erase (fun i => ((dealtPoly t ped coins i).eval j).value) hj,
    ← ((perm_shareSenders h hj).map fun i => ((dealtPoly t ped coins i).eval j).value).sum_eq,
    add_comm]
  simp only [partyAfter, DkgState.buildQualSet, List.map_map, Function.comp_def]
  rfl

/-- Nor does the collective public key. -/
theorem computeCollectivePublicKey_partyAfter {deliveries : List Delivery}
    (h : deliveries.Perm (exchanges n)) {j : ParticipantId} (hj : j ∈ participants n) :
    (partyAfter n t ped coins deliveries j).buildQualSet.computeCollectivePublicKey =
      some (collectiveSecret n coins • G2Point.generator) := by
  have hown : (partyAfter n t ped coins deliveries j).buildQualSet.myPublicKey =
      some (dealtSecret coins j • G2Point.generator) := rfl
  have hsum := DkgState.sumPublicKeys_eq (qualified_partyAfter hj deliveries) hown
    (publicKeys_qualified h hj)
  have hcount : 1 + (partyAfter n t ped coins deliveries
      j).buildQualSet.receivedPublicKeys.length ≠ 0 := by omega
  rw [DkgState.computeCollectivePublicKey, hsum, if_neg hcount, collectiveSecret,
    ← List.sum_map_erase (fun i => dealtSecret coins i) hj,
    ← ((perm_commitSenders h hj).map fun i => dealtSecret coins i).sum_eq, add_smul,
    List.sum_smul]
  simp only [partyAfter, DkgState.buildQualSet, List.map_map, Function.comp_def]

variable (t ped coins) in
/-- The key material of the party `j` after a complete exchange. -/
theorem finalize_partyAfter {deliveries : List Delivery} (h : deliveries.Perm (exchanges n))
    {j : ParticipantId} (hj : j ∈ participants n) :
    ∃ output, (partyAfter n t ped coins deliveries j).finalize.1 = .ok output ∧
      output.mySecret = keyShare n t ped coins j ∧
      output.myPublicKey = keyShare n t ped coins j • G2Point.generator ∧
      output.collectivePk = collectiveSecret n coins • G2Point.generator := by
  have henough : (partyAfter n t ped coins deliveries j).buildQualSet.qualSet.length - 1 ≤
      ((partyAfter n t ped coins deliveries j).receivedShares.filter fun entry =>
        entry.1 ∈ (partyAfter n t ped coins deliveries j).buildQualSet.qualSet).length := by
    have hall : (partyAfter n t ped coins deliveries j).receivedShares.filter (fun entry =>
        entry.1 ∈ (partyAfter n t ped coins deliveries j).buildQualSet.qualSet) =
        (partyAfter n t ped coins deliveries j).receivedShares :=
      List.filter_eq_self.mpr fun entry hentry => by simpa using shares_qualified h hj entry hentry
    rw [hall, qualSet_partyAfter, ← List.length_erase_of_mem hj,
      ← (perm_shareSenders h hj).length_eq]
    simp only [partyAfter, List.length_map, le_refl]
  have hfinalize := DkgState.finalize_eq_ok
    (List.ne_nil_of_mem (qualified_partyAfter hj deliveries)) henough
    (computeSecretShare_partyAfter h hj) (computeCollectivePublicKey_partyAfter h hj)
  exact ⟨_, congrArg Prod.fst hfinalize, rfl, rfl, rfl⟩

/-! ## Agreement -/

/-- The outputs of the parties belong to one secret key `SK` with threshold `t`. -/
structure KeyAgreement (n t : ℕ) (outputs : ParticipantId → DkgOutput) (SK : Scalar) : Prop where
  /-- All parties return the same collective key. -/
  collectivePk : ∀ j ∈ participants n, (outputs j).collectivePk = SK • G2Point.generator
  /-- Every quorum interpolates the secret from its key shares. -/
  secret : ∀ ids : List ParticipantId, ids.Nodup → (∀ id ∈ ids, id ∈ participants n) →
    max t 1 ≤ ids.length →
    lagrangeCombination ids (fun id => (outputs id).mySecret) =
      (.ok SK : Outcome CryptoError Scalar)
  /-- Every quorum interpolates the collective key from its public shares. -/
  publicKey : ∀ ids : List ParticipantId, ids.Nodup → (∀ id ∈ ids, id ∈ participants n) →
    max t 1 ≤ ids.length →
    lagrangeCombination ids (fun id => (outputs id).myPublicKey) =
      (.ok (SK • G2Point.generator) : Outcome CryptoError G2Point)
  /-- Every quorum's combined signature verifies. -/
  signature : ∀ ids : List ParticipantId, ids.Nodup → (∀ id ∈ ids, id ∈ participants n) →
    max t 1 ≤ ids.length → ∀ h : G1Point, ∃ sig,
      lagrangeCombination ids (fun id => (outputs id).mySecret • h) =
        (.ok sig : Outcome CryptoError G1Point) ∧
      ctVerifyBlsSignature sig h (SK • G2Point.generator) = true

/-- Key shares on a polynomial of low degree agree on its value at zero. -/
theorem keyAgreement_of_polynomial {outputs : ParticipantId → DkgOutput}
    {p : Polynomial Scalar} (hp : p.degree < (max t 1 : ℕ))
    (hpk : ∀ j ∈ participants n, (outputs j).collectivePk = p.eval 0 • G2Point.generator)
    (hsecret : ∀ j ∈ participants n, (outputs j).mySecret = p.eval (Scalar.ofId j))
    (hpublic : ∀ j ∈ participants n,
      (outputs j).myPublicKey = p.eval (Scalar.ofId j) • G2Point.generator) :
    KeyAgreement n t outputs (p.eval 0) := by
  have hdegree {ids : List ParticipantId} (hsize : max t 1 ≤ ids.length) :
      p.degree < ids.length := lt_of_lt_of_le hp (by exact_mod_cast hsize)
  refine ⟨hpk, ?_, ?_, ?_⟩
  · intro ids hnodup hmem hsize
    exact lagrangeCombination_eval hnodup (hdegree hsize) fun id hid => hsecret id (hmem id hid)
  · intro ids hnodup hmem hsize
    exact lagrangeCombination_smul hnodup (hdegree hsize) fun id hid => hpublic id (hmem id hid)
  · intro ids hnodup hmem hsize h
    refine ⟨p.eval 0 • h, ?_, ctVerifyBlsSignature_smul_iff.mpr rfl⟩
    exact lagrangeCombination_smul hnodup (hdegree hsize) fun id hid => by
      rw [hsecret id (hmem id hid)]

/-- **Honest key generation.** Whatever the parties draw and in whatever order
their messages arrive, all of them finish, and their outputs belong to one
secret key. -/
theorem honest_dkg (ht : t ≤ n) (ped : PedersenSetup) (coins : ParticipantId → ℕ → Scalar) :
    (∃ parties : Parties,
      ∀ j ∈ participants n, startParty n t ped (coins j) j = .ok (parties j)) ∧
    ∀ parties : Parties,
      (∀ j ∈ participants n, startParty n t ped (coins j) j = .ok (parties j)) →
      ∀ deliveries : List Delivery, deliveries.Perm (exchanges n) →
        ∃ final outputs SK, deliverAll parties deliveries = .ok final ∧
          (∀ j ∈ participants n, (final j).finalize.1 = .ok (outputs j)) ∧
          KeyAgreement n t outputs SK := by
  refine ⟨⟨_, fun j hj => startParty_eq_ok coins ht hj⟩, ?_⟩
  intro parties hstart deliveries horder
  have hinitial : RunState n t ped coins [] parties := fun j hj =>
    (Except.ok.inj ((hstart j hj).symm.trans (startParty_eq_ok coins ht hj))).trans
      (partyAfter_nil j).symm
  obtain ⟨final, hrun, hfinal⟩ := hinitial.deliverAll fun d hd =>
    mem_exchanges (horder.mem_iff.mp hd)
  have houtput (j : ParticipantId) : ∃ output, j ∈ participants n →
      (final j).finalize.1 = .ok output ∧ output.mySecret = keyShare n t ped coins j ∧
        output.myPublicKey = keyShare n t ped coins j • G2Point.generator ∧
        output.collectivePk = collectiveSecret n coins • G2Point.generator := by
    by_cases hj : j ∈ participants n
    · obtain ⟨output, houtput⟩ := finalize_partyAfter t ped coins horder hj
      rw [hfinal j hj]
      exact ⟨output, fun _ => houtput⟩
    · exact ⟨(final j).outputFor 0 0, fun h => absurd h hj⟩
  choose outputs houtputs using houtput
  refine ⟨final, outputs, _, hrun, fun j hj => (houtputs j hj).1,
    keyAgreement_of_polynomial (degree_jointPolynomial_lt n t ped coins) ?_ ?_ ?_⟩
  · intro j hj
    rw [eval_zero_jointPolynomial]
    exact (houtputs j hj).2.2.2
  · intro j hj
    rw [eval_jointPolynomial]
    exact (houtputs j hj).2.1
  · intro j hj
    rw [eval_jointPolynomial]
    exact (houtputs j hj).2.2.1

omit [Curve] in
/-- Two parties, with a share that arrives before the commit of its sender. -/
theorem honest_dkg_two_parties :
    letI := exponentCurve
    ∃ final outputs SK,
      deliverAll (fun j => (DkgState.initial 2 2 j PedersenSetup.deterministic).start fun k => k)
        [.share 2 1, .commit 1 2, .share 1 2, .commit 2 1] = .ok final ∧
      (∀ j ∈ participants 2, (final j).finalize.1 = .ok (outputs j)) ∧
      KeyAgreement 2 2 outputs SK := by
  let := exponentCurve
  have horder : [.share 2 1, .commit 1 2, .share 1 2, .commit 2 1].Perm (exchanges 2) := by
    decide
  exact (honest_dkg le_rfl PedersenSetup.deterministic fun _ k => (k : Scalar)).2 _
    (fun j hj => startParty_eq_ok (fun _ k => (k : Scalar)) le_rfl hj) _ horder

end Sigimora
