import Sigimora.Crypto.DkgCorrectness

/-!
# What a coalition learns

A coalition sees its own aggregated shares. A collective secret is consistent
with these shares if the dealers could have drawn polynomials with that sum of
constant terms and the same shares. Each dealer draws `t` coefficients, so that
`t` shares already determine the joint polynomial, and fewer determine nothing.
-/

namespace Sigimora

open Pedersen Polynomial

variable [Curve]

variable (n t : ℕ) (ped : PedersenSetup) (coins : ParticipantId → ℕ → Scalar)

/-- The aggregated share of the party `j` in the run that the draws determine. -/
def aggregatedShare (j : ParticipantId) : Option Scalar :=
  (partyAfter n t ped coins (exchanges n) j).buildQualSet.computeSecretShare

/-- The shares of the coalition `C` are consistent with the collective secret `s`. -/
def ConsistentWith (C : Finset ParticipantId) (s : Scalar) : Prop :=
  ∃ coins' : ParticipantId → ℕ → Scalar, collectiveSecret n coins' = s ∧
    ∀ j ∈ C, aggregatedShare n t ped coins' j = aggregatedShare n t ped coins j

variable {n t ped coins}

/-- The shares of a participant add up to the value of the joint polynomial. -/
theorem aggregatedShare_eq {j : ParticipantId} (hj : j ∈ participants n) :
    aggregatedShare n t ped coins j =
      some ((jointPolynomial n t ped coins).eval (Scalar.ofId j)) := by
  rw [aggregatedShare, computeSecretShare_partyAfter (List.Perm.refl _) hj, eval_jointPolynomial]

variable (ped) in
/-- Every polynomial of low degree can be drawn by a dealer. -/
theorem exists_draws {p : Scalar[X]} (ht : 1 ≤ t) (hp : p.degree < t) :
    ∃ draws : ℕ → Scalar, (PrivatePoly.randomWithSecret (draws 0) t ped fun k =>
      draws (k + 1)).toPolynomial = p := by
  -- the even draws are the coefficients of the value polynomial
  refine ⟨fun m => p.coeff (m / 2), ?_⟩
  rw [PrivatePoly.toPolynomial]
  conv_rhs => rw [← Horner.toPolynomial_coeffs hp]
  congr 1
  obtain ⟨k, rfl⟩ : ∃ k, t = k + 1 := ⟨t - 1, by omega⟩
  rw [List.range_succ_eq_map, List.map_cons, List.map_map]
  simp only [PrivatePoly.randomWithSecret, PrivatePoly.drawCoefficients, Nat.add_sub_cancel,
    List.cons.injEq]
  refine ⟨trivial, List.map_congr_left fun i _ => ?_⟩
  have hindex : (2 * i + 1 + 1) / 2 = i + 1 := by omega
  rw [Function.comp_apply, hindex]

/-- Replacing the draws of one dealer replaces its summand. -/
theorem jointPolynomial_update {i : ParticipantId} (hi : i ∈ participants n)
    (draws : ℕ → Scalar) :
    jointPolynomial n t ped (Function.update coins i draws) =
      jointPolynomial n t ped coins - (dealtPoly t ped coins i).toPolynomial +
        (PrivatePoly.randomWithSecret (draws 0) t ped fun k => draws (k + 1)).toPolynomial := by
  have hothers : ((participants n).erase i).map (fun j =>
        (dealtPoly t ped (Function.update coins i draws) j).toPolynomial) =
      ((participants n).erase i).map fun j => (dealtPoly t ped coins j).toPolynomial := by
    refine List.map_congr_left fun j hj => ?_
    have hji := ((nodup_participants n).mem_erase_iff.mp hj).1
    simp only [dealtPoly, Function.update_of_ne hji]
  have hown : (dealtPoly t ped (Function.update coins i draws) i).toPolynomial =
      (PrivatePoly.randomWithSecret (draws 0) t ped fun k => draws (k + 1)).toPolynomial := by
    simp only [dealtPoly, Function.update_self]
  rw [jointPolynomial, jointPolynomial, ← List.sum_map_erase _ hi, hothers, hown,
    ← List.sum_map_erase (fun j => (dealtPoly t ped coins j).toPolynomial) hi]
  ring

/-- Fewer than `t` shares are consistent with every secret. -/
theorem consistentWith_of_card_lt (ht : 1 ≤ t) {C : Finset ParticipantId}
    (hC : ∀ j ∈ C, j ∈ participants n) {i : ParticipantId} (hi : i ∈ participants n)
    (hcard : C.card < t) (s : Scalar) : ConsistentWith n t ped coins C s := by
  have hzero : (0 : Scalar) ∉ C.image Scalar.ofId := by
    rw [Finset.mem_image]
    rintro ⟨j, hj, hzero⟩
    exact Scalar.ofId_ne_zero (ne_zero_of_mem_participants (hC j hj)) hzero
  obtain ⟨mask, hdegree, hone, hvanish⟩ := Interpolation.exists_mask hzero
  rw [Finset.card_image_of_injective _ Scalar.ofId_injective] at hdegree
  -- the dealer `i` shifts its polynomial by a multiple of the mask
  let shift := (s - collectiveSecret n coins) • mask
  have hmask : shift.degree < t := by
    apply lt_of_le_of_lt (degree_smul_le _ _)
    rw [hdegree]
    exact_mod_cast hcard
  have hpoly : (dealtPoly t ped coins i).toPolynomial.degree < t := by
    have h := PrivatePoly.degree_randomWithSecret_lt (coins i 0) t ped fun k => coins i (k + 1)
    rwa [max_eq_left ht] at h
  obtain ⟨draws, hdraws⟩ := exists_draws ped ht
    (lt_of_le_of_lt (degree_add_le _ _) (max_lt hpoly hmask))
  have hjoint : jointPolynomial n t ped (Function.update coins i draws) =
      jointPolynomial n t ped coins + shift := by
    rw [jointPolynomial_update hi, hdraws]
    ring
  refine ⟨Function.update coins i draws, ?_, ?_⟩
  · rw [← eval_zero_jointPolynomial n t ped, hjoint, eval_add, eval_zero_jointPolynomial,
      eval_smul, hone, smul_eq_mul, mul_one, add_sub_cancel]
  · intro j hj
    rw [aggregatedShare_eq (hC j hj), aggregatedShare_eq (hC j hj), hjoint, eval_add, eval_smul,
      hvanish _ (Finset.mem_image_of_mem _ hj), smul_zero, add_zero]

/-- From `t` shares on the collective secret is determined. -/
theorem collectiveSecret_eq_of_consistentWith (ht : 1 ≤ t) {C : Finset ParticipantId}
    (hC : ∀ j ∈ C, j ∈ participants n) (hcard : t ≤ C.card) {s : Scalar}
    (h : ConsistentWith n t ped coins C s) : s = collectiveSecret n coins := by
  obtain ⟨coins', rfl, hshares⟩ := h
  have hdegree (draws : ParticipantId → ℕ → Scalar) :
      (jointPolynomial n t ped draws).degree < (C.image Scalar.ofId).card := by
    have hjoint := degree_jointPolynomial_lt n t ped draws
    rw [max_eq_left ht] at hjoint
    rw [Finset.card_image_of_injective _ Scalar.ofId_injective]
    exact lt_of_lt_of_le hjoint (by exact_mod_cast hcard)
  have heq : jointPolynomial n t ped coins' = jointPolynomial n t ped coins := by
    refine eq_of_degrees_lt_of_eval_finset_eq (C.image Scalar.ofId) (hdegree coins')
      (hdegree coins) fun x hx => ?_
    obtain ⟨j, hj, rfl⟩ := Finset.mem_image.mp hx
    have hshare := hshares j hj
    rw [aggregatedShare_eq (hC j hj), aggregatedShare_eq (hC j hj)] at hshare
    exact Option.some.inj hshare
  rw [← eval_zero_jointPolynomial n t ped, heq, eval_zero_jointPolynomial]

/-- **The secrecy threshold.** The shares of a coalition are consistent with a
collective secret exactly when the coalition has fewer than `t` members or the
secret is the one that was shared. -/
theorem consistentWith_iff (ht : 1 ≤ t) (htn : t < n) (hn : n ≤ 65535)
    {C : Finset ParticipantId} (hC : ∀ j ∈ C, j ∈ participants n) (s : Scalar) :
    ConsistentWith n t ped coins C s ↔ C.card < t ∨ s = collectiveSecret n coins := by
  constructor
  · intro h
    by_cases hcard : C.card < t
    · exact Or.inl hcard
    · exact Or.inr (collectiveSecret_eq_of_consistentWith ht hC (not_lt.mp hcard) h)
  · rintro (hcard | rfl)
    · have hone : (1 : ParticipantId) ∈ participants n := by
        rw [mem_participants hn]
        have : (1 : ParticipantId).toNat = 1 := rfl
        omega
      exact consistentWith_of_card_lt ht hC hone hcard s
    · exact ⟨coins, rfl, fun _ _ => rfl⟩

omit [Curve] in
theorem one_mem_participants_two : ∀ j ∈ ({1} : Finset ParticipantId), j ∈ participants 2 := by
  intro j hj
  rw [Finset.mem_singleton.mp hj]
  decide

omit [Curve] in
/-- One of two parties with `t = 1` knows that the secret is not one when all
draws were zero. -/
theorem consistentWith_iff_single :
    letI := exponentCurve
    ConsistentWith 2 1 PedersenSetup.deterministic (fun _ _ => 0) {1} 1 ↔
      ({1} : Finset ParticipantId).card < 1 ∨
        (1 : Scalar) = collectiveSecret 2 fun _ _ => 0 := by
  let := exponentCurve
  exact consistentWith_iff le_rfl one_lt_two (by norm_num) one_mem_participants_two 1

omit [Curve] in
/-- A single node of a network with `t = 1`, whose quorum is two, holds a share
that rules out every other collective secret. -/
theorem single_share_determines_secret :
    letI := exponentCurve
    ¬ ∀ (n t : ℕ) (C : Finset ParticipantId) (coins : ParticipantId → ℕ → Scalar) (s : Scalar),
      1 ≤ t → t < n → n ≤ 65535 → (∀ j ∈ C, j ∈ participants n) → C.card = t →
        ConsistentWith n t PedersenSetup.deterministic coins C s := by
  let := exponentCurve
  intro h
  have hconsistent := h 2 1 {1} (fun _ _ => 0) 1 le_rfl one_lt_two (by norm_num)
    one_mem_participants_two rfl
  have hsecret := collectiveSecret_eq_of_consistentWith le_rfl one_mem_participants_two le_rfl
    hconsistent
  have hzero : collectiveSecret 2 (fun _ _ => 0) = 0 := by
    simp [collectiveSecret, dealtSecret]
  rw [hzero] at hsecret
  exact one_ne_zero hsecret

end Sigimora
