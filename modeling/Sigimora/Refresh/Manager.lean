import Sigimora.Refresh.Correctness
import Sigimora.Refresh.PublicKeyCheck

/-!
# The refresh manager

The manager adds the values of drawn polynomials that vanish at zero. Whatever
the old keys are, it changes no combination of at least `t` of them, and its
own check of the public keys confirms this.
-/

namespace Sigimora.Refresh

open Pedersen Shamir Interpolation

variable [Curve]

/-- A party that generates a contribution, with its draws. -/
abbrev Dealer := ParticipantId × (ℕ → Scalar)

namespace RefreshManager

/-- The contributions that the manager generates for the dealers. -/
def contributions (manager : RefreshManager) (dealers : List Dealer) : List RefreshContribution :=
  dealers.map fun dealer => manager.generateContribution dealer.1 dealer.2

/-- The key of the party `j` after refreshes with the contributions of these dealers. -/
def keyAfter (manager : RefreshManager) (j : ParticipantId) (key : Scalar)
    (refreshes : List (List Dealer)) : Outcome RefreshError Scalar :=
  refreshes.foldlM (fun key dealers => applyContributions key j (manager.contributions dealers)) key

variable {manager : RefreshManager}

/-- The sum of the polynomials that the dealers draw. -/
noncomputable def dealtPolynomial (manager : RefreshManager) (dealers : List Dealer) :
    Polynomial Scalar :=
  (dealers.map fun dealer => (PrivatePoly.randomWithZeroConstant manager.t manager.pedersen
    dealer.2).toPolynomial).sum

/-- The dealt polynomial is of degree below the threshold. -/
theorem degree_dealtPolynomial_lt (ht : 1 ≤ manager.t) (dealers : List Dealer) :
    (manager.dealtPolynomial dealers).degree < manager.t := by
  rw [← Polynomial.mem_degreeLT, dealtPolynomial]
  refine list_sum_mem fun p hp => ?_
  obtain ⟨dealer, _, rfl⟩ := List.mem_map.mp hp
  have hdegree := PrivatePoly.degree_randomWithZeroConstant_lt manager.t manager.pedersen dealer.2
  rw [max_eq_left ht] at hdegree
  exact Polynomial.mem_degreeLT.mpr hdegree

/-- The dealt polynomial vanishes at zero. -/
theorem eval_zero_dealtPolynomial (manager : RefreshManager) (dealers : List Dealer) :
    (manager.dealtPolynomial dealers).eval 0 = 0 := by
  rw [dealtPolynomial, Polynomial.eval_listSum, List.map_map]
  refine List.sum_eq_zero fun x hx => ?_
  obtain ⟨dealer, _, rfl⟩ := List.mem_map.mp hx
  exact PrivatePoly.eval_zero_randomWithZeroConstant _ _ _

/-- One refresh adds the value of the dealt polynomial. -/
theorem applyContributions_contributions {j : ParticipantId} (hj : j ∈ participants manager.n)
    (key : Scalar) (dealers : List Dealer) :
    applyContributions key j (manager.contributions dealers) =
      .ok (key + (manager.dealtPolynomial dealers).eval (Scalar.ofId j)) := by
  have happly := applyContributions_eq
    (fun dealer : Dealer => PrivatePoly.randomWithZeroConstant manager.t manager.pedersen dealer.2)
    Prod.fst 0 hj key dealers
  have hvalues : dealers.map (fun dealer => ((PrivatePoly.randomWithZeroConstant manager.t
      manager.pedersen dealer.2).eval j).value) = dealers.map fun dealer =>
        (PrivatePoly.randomWithZeroConstant manager.t manager.pedersen
          dealer.2).toPolynomial.eval (Scalar.ofId j) :=
    List.map_congr_left fun dealer _ => PrivatePoly.eval_randomWithZeroConstant _ _ _ j
  rw [hvalues] at happly
  rw [dealtPolynomial, Polynomial.eval_listSum, List.map_map]
  exact happly

/-- Successive refreshes add the values of all dealt polynomials. -/
theorem keyAfter_eq {j : ParticipantId} (hj : j ∈ participants manager.n) (key : Scalar)
    (refreshes : List (List Dealer)) :
    manager.keyAfter j key refreshes =
      .ok (key + (manager.dealtPolynomial refreshes.flatten).eval (Scalar.ofId j)) := by
  induction refreshes generalizing key with
  | nil => simp [keyAfter, dealtPolynomial]
  | cons dealers refreshes ih =>
    have hsum : manager.dealtPolynomial (dealers :: refreshes).flatten =
        manager.dealtPolynomial dealers + manager.dealtPolynomial refreshes.flatten := by
      rw [List.flatten_cons, dealtPolynomial, List.map_append, List.sum_append]
      rfl
    have hstep : manager.keyAfter j key (dealers :: refreshes) = manager.keyAfter j
        (key + (manager.dealtPolynomial dealers).eval (Scalar.ofId j)) refreshes := by
      rw [keyAfter, List.foldlM_cons, applyContributions_contributions hj]
      rfl
    rw [hstep, ih, hsum, Polynomial.eval_add, add_assoc]

/-! ## The check of the public keys -/

/-- The entry of a participant is its own value. -/
theorem entryOf_participants {n : ℕ} (hn : n ≤ 65535) (value : ParticipantId → G2Point)
    {id : ParticipantId} (hid : id ∈ participants n) :
    entryOf ((participants n).map value) id = some (value id) := by
  obtain ⟨hpos, hle⟩ := (mem_participants hn).mp hid
  have hne : id ≠ 0 := by
    rintro rfl
    exact absurd hpos (by decide)
  have hentry : (participants n)[id.toNat - 1]? = some id := by
    rw [participants_eq hn, List.getElem?_map, List.getElem?_range (by omega), Option.map_some,
      Nat.sub_add_cancel hpos, UInt16.ofNat_toNat]
  rw [entryOf, if_neg hne, List.getElem?_map, hentry, Option.map_some]

/-- For a quorum of different participants the check compares the combined keys. -/
theorem verifyCollectiveKeyInvariant_eq {ε : Type} {n : ℕ} (hn : n ≤ 65535)
    (old new : ParticipantId → G2Point) {quorum : List ParticipantId} (hnodup : quorum.Nodup)
    (hmem : ∀ id ∈ quorum, id ∈ participants n) :
    (verifyCollectiveKeyInvariant ((participants n).map old) ((participants n).map new) quorum :
      Outcome ε Bool) = .ok (combine (nodes quorum) (fun x => old (idOf x)) ==
        combine (nodes quorum) fun x => new (idOf x)) := by
  have hzero : 0 ∉ quorum := fun hzero =>
    absurd ((mem_participants hn).mp (hmem 0 hzero)).1 (by decide)
  have hkeys : ∀ id ∈ quorum,
      HasKeys ((participants n).map old) ((participants n).map new) id := by
    intro id hid
    rw [HasKeys, entryOf_participants hn old (hmem id hid),
      entryOf_participants hn new (hmem id hid)]
    exact ⟨rfl, rfl⟩
  have hcombine (value : ParticipantId → G2Point) :
      combine (nodes quorum) (fun x => (entryOf ((participants n).map value) (idOf x)).getD 0) =
        combine (nodes quorum) fun x => value (idOf x) := by
    refine combine_congr fun x hx => ?_
    obtain ⟨id, hid, rfl⟩ := mem_nodes.mp hx
    rw [idOf_ofId, entryOf_participants hn value (hmem id hid), Option.getD_some]
  rw [verifyCollectiveKeyInvariant_eq_shared hnodup hzero, combine_sharedKey hkeys,
    combine_sharedKey hkeys, hcombine, hcombine]

/-- **Refresh by the manager.** After any number of refreshes every sufficient quorum combines
to what it combined to before, and the check of its public keys returns true. -/
theorem refreshes_keep_combinations (manager : RefreshManager) (hn : manager.n ≤ 65535)
    (ht : 1 ≤ manager.t) (keys : ParticipantId → Scalar) (refreshes : List (List Dealer)) :
    ∃ newKeys : ParticipantId → Scalar,
      (∀ j ∈ participants manager.n, manager.keyAfter j (keys j) refreshes = .ok (newKeys j)) ∧
      ∀ quorum : List ParticipantId, quorum.Nodup →
        (∀ id ∈ quorum, 1 ≤ id.toNat ∧ id.toNat ≤ manager.n) → manager.t ≤ quorum.length →
        (∃ combined, (lagrangeCombination quorum keys : Outcome RefreshError Scalar) =
            .ok combined ∧
          (lagrangeCombination quorum newKeys : Outcome RefreshError Scalar) = .ok combined) ∧
        (verifyCollectiveKeyInvariant
          ((participants manager.n).map fun j => keys j • G2Point.generator)
          ((participants manager.n).map fun j => newKeys j • G2Point.generator) quorum :
            Outcome RefreshError Bool) = .ok true := by
  let p := manager.dealtPolynomial refreshes.flatten
  refine ⟨fun j => keys j + p.eval (Scalar.ofId j), fun j hj => keyAfter_eq hj _ _, ?_⟩
  intro quorum hnodup hids hsize
  have hmem : ∀ id ∈ quorum, id ∈ participants manager.n := fun id hid =>
    (mem_participants hn).mpr (hids id hid)
  have hdegree : p.degree < (nodes quorum).card := by
    rw [card_nodes hnodup]
    exact lt_of_lt_of_le (degree_dealtPolynomial_lt ht _) (by exact_mod_cast hsize)
  have hdealt : combine (nodes quorum) (fun x => p.eval (Scalar.ofId (idOf x))) = 0 := by
    rw [← eval_zero_dealtPolynomial manager refreshes.flatten, ← combine_eval hdegree]
    refine combine_congr fun x hx => ?_
    obtain ⟨id, _, rfl⟩ := mem_nodes.mp hx
    rw [idOf_ofId]
  have hkept : combine (nodes quorum) (fun x => keys (idOf x) + p.eval (Scalar.ofId (idOf x))) =
      combine (nodes quorum) fun x => keys (idOf x) := by
    rw [combine_add, hdealt, add_zero]
  refine ⟨⟨_, lagrangeCombination_eq hnodup keys, ?_⟩, ?_⟩
  · rw [lagrangeCombination_eq hnodup, hkept]
  · rw [verifyCollectiveKeyInvariant_eq hn _ _ hnodup hmem, combine_smul_point, combine_smul_point,
      hkept, beq_self_eq_true]

omit [Curve] in
/-- Two refreshes of the keys 4, 8 and 15, which lie on no line, with threshold two. -/
theorem refreshes_keep_combinations_two_of_three :
    letI := exponentCurve
    ∃ newKeys : ParticipantId → Scalar,
      (RefreshManager.new 3 2).keyAfter 3 15
          [[(1, fun _ => 5), (2, fun _ => 6)], [(3, fun _ => 1)]] =
        .ok (newKeys 3) ∧
      (verifyCollectiveKeyInvariant
        ((participants 3).map fun j =>
          (if j = 1 then 4 else if j = 2 then 8 else 15 : Scalar) • G2Point.generator)
        ((participants 3).map fun j => newKeys j • G2Point.generator) [3, 1] :
          Outcome RefreshError Bool) = .ok true := by
  let := exponentCurve
  obtain ⟨newKeys, hkeys, hquorum⟩ := refreshes_keep_combinations (RefreshManager.new 3 2)
    (by decide) (by decide) (fun j => if j = 1 then 4 else if j = 2 then 8 else 15)
    [[(1, fun _ => 5), (2, fun _ => 6)], [(3, fun _ => 1)]]
  have hthird := hkeys 3 (by decide)
  have hchecked := (hquorum [3, 1] (by decide) (by simp [RefreshManager.new]) le_rfl).2
  exact ⟨newKeys, hthird, hchecked⟩

end RefreshManager

end Sigimora.Refresh
