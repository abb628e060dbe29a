import Mathlib.RingTheory.Polynomial.DegreeLT
import Sigimora.Library.Accumulate
import Sigimora.Math.ExponentCurve
import Sigimora.Refresh.Protocol

/-!
# Keys after a refresh

The manager adds to every key the sum of all dealt shares, the values of one
polynomial that vanishes at zero. The state machine of a party only adds the
contributions it received, which leaves out the party's own one; the two agree
exactly when no party deals itself a share other than zero.
-/

namespace Sigimora.Refresh

open Pedersen Shamir

variable [Curve]

/-! ## Dealt contributions -/

/-- The contribution that deals the shares of a polynomial. -/
def dealtContribution (n : ℕ) (poly : PrivatePoly) (sender : ParticipantId) (epoch : UInt64) :
    RefreshContribution where
  sender := sender
  epoch := epoch
  vssPublic := poly.commit
  shares := (participants n).map poly.eval

/-- Exactly one of the dealt shares is for the party `j`. -/
theorem filter_dealt {n : ℕ} (poly : PrivatePoly) {j : ParticipantId} (hj : j ∈ participants n) :
    ((participants n).map poly.eval).filter (fun s => s.index = j) = [poly.eval j] := by
  have hids : (participants n).filter (fun i => i = j) = [j] := by
    have hcount := List.count_eq_one_of_mem (nodup_participants n) hj
    exact (List.filter_beq j).trans (by rw [hcount, List.replicate_one])
  have hindex : (fun s : VssShare => decide (s.index = j)) ∘ poly.eval =
      fun i => decide (i = j) := rfl
  rw [List.filter_map, hindex, hids, List.map_singleton]

/-- A participant finds its own share among the dealt ones. -/
theorem find?_dealt {n : ℕ} (poly : PrivatePoly) {j : ParticipantId} (hj : j ∈ participants n) :
    ((participants n).map poly.eval).find? (fun s => s.index = j) = some (poly.eval j) := by
  rw [← List.head?_filter, filter_dealt poly hj, List.head?_cons]

/-- The first commitment of a polynomial that vanishes at zero is the identity. -/
theorem commitments_randomWithZeroConstant (t : ℕ) (ped : PedersenSetup) (coins : ℕ → Scalar) :
    ∃ rest, (PrivatePoly.randomWithZeroConstant t ped coins).commit.commitments = 0 :: rest := by
  have hzero : ped.commit 0 0 = 0 := by
    rw [PedersenSetup.commit, zero_smul, zero_smul, add_zero]
  rw [← hzero]
  exact ⟨_, rfl⟩

/-- A party accepts the shares of a polynomial if there is one for it and the first commitment is
the identity. -/
theorem verifyContribution_dealt_iff {state : RefreshState} {n : ℕ} {poly : PrivatePoly}
    {first : G1Point} {rest : List G1Point} (hped : poly.pedersen = state.pedersen)
    (hcommit : poly.commit.commitments = first :: rest) (sender : ParticipantId)
    (epoch : UInt64) :
    state.verifyContribution (dealtContribution n poly sender epoch) = .ok () ↔
      state.myId ∈ participants n ∧ first = 0 := by
  have hshare := PrivatePoly.verifyShare_commit poly state.myId
  rw [hped] at hshare
  by_cases hid : state.myId ∈ participants n
  · rw [and_iff_right hid, RefreshState.verifyContribution]
    simp only [dealtContribution, filter_dealt poly hid, hshare, hcommit, not_true_eq_false,
      if_false]
    split
    · next hfirst => exact iff_of_false nofun hfirst
    · next hfirst => exact iff_of_true rfl (not_not.mp hfirst)
  · have hnone : ((participants n).map poly.eval).filter (fun s => s.index = state.myId) = [] := by
      rw [List.filter_eq_nil_iff]
      intro s hs hindex
      obtain ⟨i, hi, rfl⟩ := List.mem_map.mp hs
      have hsame : i = state.myId := of_decide_eq_true hindex
      exact hid (hsame ▸ hi)
    refine iff_of_false ?_ fun h => hid h.1
    simp only [RefreshState.verifyContribution, dealtContribution, hnone]
    exact nofun

/-- The contribution that deals the shares of a polynomial with the identity as its first
commitment is accepted. -/
theorem addContribution_dealt {state : RefreshState} {n : ℕ} {poly : PrivatePoly}
    (hped : poly.pedersen = state.pedersen)
    (hzero : ∃ rest, poly.commit.commitments = 0 :: rest) (hid : state.myId ∈ participants n)
    (sender : ParticipantId) (epoch : UInt64) :
    state.addContribution (dealtContribution n poly sender epoch) =
      .ok { state with
        contributions := state.contributions ++ [dealtContribution n poly sender epoch]
        round := .committed } := by
  obtain ⟨rest, hcommit⟩ := hzero
  have hverify : state.verifyContribution (dealtContribution n poly sender epoch) = .ok () :=
    (verifyContribution_dealt_iff hped hcommit sender epoch).mpr ⟨hid, rfl⟩
  rw [RefreshState.addContribution, hverify, Outcome.ok_bind, Outcome.pure_eq_ok]

/-! ## The manager -/

/-- The manager adds the dealt shares of all parties. -/
theorem applyContributions_eq {n : ℕ} {ι : Type*} (poly : ι → PrivatePoly)
    (sender : ι → ParticipantId) (epoch : UInt64) {j : ParticipantId} (hj : j ∈ participants n)
    (key : Scalar) (dealers : List ι) :
    RefreshManager.applyContributions key j
        (dealers.map fun i => dealtContribution n (poly i) (sender i) epoch) =
      .ok (key + (dealers.map fun i => ((poly i).eval j).value).sum) := by
  have hloop : (dealers.map fun i => dealtContribution n (poly i) (sender i) epoch).foldl
      (RefreshManager.addDelta j) 0 = 0 + (dealers.map fun i => ((poly i).eval j).value).sum := by
    rw [List.foldl_map, ← Accumulate.foldl_add]
    simp only [RefreshManager.addDelta, dealtContribution, find?_dealt _ hj]
  rw [RefreshManager.applyContributions, hloop, zero_add]

section Joint

variable (n t : ℕ) (ped : PedersenSetup) (coins : ParticipantId → ℕ → Scalar)

/-- The polynomial that the party `i` draws in a refresh. -/
def zeroPoly (i : ParticipantId) : PrivatePoly :=
  PrivatePoly.randomWithZeroConstant t ped (coins i)

/-- The sum of the drawn polynomials. -/
noncomputable def jointZeroPolynomial : Polynomial Scalar :=
  ((participants n).map fun i => (zeroPoly t ped coins i).toPolynomial).sum

/-- The polynomials of all parties add up to one of degree below the threshold. -/
theorem degree_jointZeroPolynomial_lt :
    (jointZeroPolynomial n t ped coins).degree < (max t 1 : ℕ) := by
  rw [← Polynomial.mem_degreeLT, jointZeroPolynomial]
  refine list_sum_mem fun p hp => ?_
  obtain ⟨i, _, rfl⟩ := List.mem_map.mp hp
  exact Polynomial.mem_degreeLT.mpr (PrivatePoly.degree_randomWithZeroConstant_lt _ _ _)

/-- Its value at an id is the sum of the shares for that id. -/
theorem eval_jointZeroPolynomial (j : ParticipantId) :
    (jointZeroPolynomial n t ped coins).eval (Scalar.ofId j) =
      ((participants n).map fun i => ((zeroPoly t ped coins i).eval j).value).sum := by
  rw [jointZeroPolynomial, Polynomial.eval_listSum, List.map_map]
  congr 1
  refine List.map_congr_left fun i _ => ?_
  exact (PrivatePoly.eval_randomWithZeroConstant _ _ _ j).symm

/-- It vanishes at zero. -/
theorem eval_zero_jointZeroPolynomial : (jointZeroPolynomial n t ped coins).eval 0 = 0 := by
  rw [jointZeroPolynomial, Polynomial.eval_listSum, List.map_map]
  refine List.sum_eq_zero fun x hx => ?_
  obtain ⟨i, _, rfl⟩ := List.mem_map.mp hx
  exact PrivatePoly.eval_zero_randomWithZeroConstant _ _ _

end Joint

/-! ## The state machine -/

section Run

variable (epoch : UInt64) (n t : ℕ) (ped : PedersenSetup)
  (keys : ParticipantId → Scalar) (coins : ParticipantId → ℕ → Scalar)

/-- The started state of the party `j`. -/
def startedParty (j : ParticipantId) : RefreshState :=
  (RefreshState.new epoch (keys j) n t j ped).start (coins j)

/-- The party `j` adds the broadcast contributions of the senders, in that order. -/
def collectContributions (j : ParticipantId) (senders : List ParticipantId) :
    Outcome RefreshError RefreshState :=
  senders.foldlM (fun state i => do
    let contrib ← Outcome.unwrap (startedParty epoch n t ped keys coins i).myContribution
    state.addContribution contrib) (startedParty epoch n t ped keys coins j)

/-- The contributions of all parties, in the order of their ids. -/
def allContributions : List RefreshContribution :=
  (participants n).filterMap fun i => (startedParty epoch n t ped keys coins i).myContribution

/-- The party `j` after it has added the contributions of the senders. -/
def partyAfter (j : ParticipantId) (senders : List ParticipantId) : RefreshState :=
  { startedParty epoch n t ped keys coins j with
    contributions := senders.map fun i => dealtContribution n (zeroPoly t ped coins i) i epoch
    round := if senders = [] then .idle else .committed }

variable {epoch n t ped keys coins}

/-- A party that has started has its own contribution. -/
theorem myContribution_startedParty (i : ParticipantId) :
    (startedParty epoch n t ped keys coins i).myContribution =
      some (dealtContribution n (zeroPoly t ped coins i) i epoch) := rfl

/-- The contributions are those of all parties. -/
theorem allContributions_eq : allContributions epoch n t ped keys coins =
    (participants n).map fun i => dealtContribution n (zeroPoly t ped coins i) i epoch := by
  rw [allContributions, ← List.filterMap_eq_map]
  rfl

/-- The contribution of a party that follows the protocol is accepted. -/
theorem addContribution_partyAfter {j : ParticipantId} (hj : j ∈ participants n)
    (senders : List ParticipantId) (i : ParticipantId) :
    (partyAfter epoch n t ped keys coins j senders).addContribution
        (dealtContribution n (zeroPoly t ped coins i) i epoch) =
      .ok (partyAfter epoch n t ped keys coins j (senders ++ [i])) := by
  have hzero : ∃ rest, (zeroPoly t ped coins i).commit.commitments = 0 :: rest :=
    commitments_randomWithZeroConstant t ped (coins i)
  rw [addContribution_dealt rfl hzero hj]
  simp [partyAfter]

/-- Adding the contributions of any senders succeeds. -/
theorem collectContributions_eq {j : ParticipantId} (hj : j ∈ participants n)
    (senders : List ParticipantId) : collectContributions epoch n t ped keys coins j senders =
      .ok (partyAfter epoch n t ped keys coins j senders) := by
  have hrun (before : List ParticipantId) : senders.foldlM (fun state i => do
        let contrib ← Outcome.unwrap (startedParty epoch n t ped keys coins i).myContribution
        state.addContribution contrib) (partyAfter epoch n t ped keys coins j before) =
      (.ok (partyAfter epoch n t ped keys coins j (before ++ senders)) :
        Outcome RefreshError RefreshState) := by
    induction senders generalizing before with
    | nil => simp
    | cons i senders ih =>
      rw [List.foldlM_cons, myContribution_startedParty, Outcome.unwrap_some, Outcome.ok_bind,
        addContribution_partyAfter hj, Outcome.ok_bind, ih, List.append_assoc,
        List.singleton_append]
  exact hrun []

/-- The new key adds the shares of the recorded contributions. -/
theorem computeNewKey_partyAfter {j : ParticipantId} (hj : j ∈ participants n) (hn : 1 ≤ n)
    {senders : List ParticipantId} (henough : n - 1 ≤ senders.length) :
    (partyAfter epoch n t ped keys coins j senders).computeNewKey =
      .ok (keys j + (senders.map fun i => ((zeroPoly t ped coins i).eval j).value).sum) := by
  have hloop : (senders.map fun i => dealtContribution n (zeroPoly t ped coins i) i epoch).foldl
      (RefreshState.addDelta j) 0 =
      0 + (senders.map fun i => ((zeroPoly t ped coins i).eval j).value).sum := by
    rw [List.foldl_map, ← Accumulate.foldl_add]
    simp only [RefreshState.addDelta, dealtContribution, filter_dealt _ hj]
  have hcount : ¬ (partyAfter epoch n t ped keys coins j senders).contributions.length < n - 1 := by
    simpa [partyAfter] using henough
  have hsub : (Outcome.sub (partyAfter epoch n t ped keys coins j senders).n 1 :
      Outcome RefreshError ℕ) = .ok (n - 1) := Outcome.sub_of_le hn
  rw [RefreshState.computeNewKey, hsub, Outcome.ok_bind, if_neg hcount]
  simp only [partyAfter, startedParty, RefreshState.start, RefreshState.new, hloop, zero_add,
    Outcome.pure_eq_ok]

end Run

/-! ## The two implementations compared -/

/-- What a distributed refresh promises: every party collects all contributions
and computes a new key, the new keys combine to the old collective key, and they
are the keys that the manager computes from all contributions. -/
def RefreshCorrect (epoch : UInt64) (n t : ℕ) (ped : PedersenSetup)
    (keys : ParticipantId → Scalar) (coins : ParticipantId → ℕ → Scalar)
    (orders : ParticipantId → List ParticipantId) : Prop :=
  ∃ newKeys : ParticipantId → Scalar,
    (∀ j ∈ participants n, ∃ state,
      collectContributions epoch n t ped keys coins j (orders j) = .ok state ∧
      state.allContributionsReceived = .ok true ∧
      state.computeNewKey = .ok (newKeys j) ∧
      (state.applyRefresh (newKeys j)).myKey = some (newKeys j)) ∧
    (∀ ids : List ParticipantId, ids.Nodup → (∀ id ∈ ids, id ∈ participants n) →
      t ≤ ids.length → (lagrangeCombination ids newKeys : Outcome RefreshError Scalar) =
        lagrangeCombination ids keys) ∧
    ∀ j ∈ participants n, RefreshManager.applyContributions (keys j) j
      (allContributions epoch n t ped keys coins) = .ok (newKeys j)

variable {epoch : UInt64} {n t : ℕ} {ped : PedersenSetup} {keys : ParticipantId → Scalar}
  {coins : ParticipantId → ℕ → Scalar} {orders : ParticipantId → List ParticipantId}

omit [Curve] in
/-- Hearing from everybody else is hearing from `n - 1` parties. -/
theorem length_order (hn : n ≤ 65535) {j : ParticipantId} (hj : j ∈ participants n)
    {senders : List ParticipantId} (h : senders.Perm ((participants n).erase j)) :
    senders.length = n - 1 := by
  rw [h.length_eq, List.length_erase_of_mem hj, length_participants hn]

/-- The key that the state machine computes misses the own share. -/
theorem computeNewKey_order (hpos : 1 ≤ n) (hn : n ≤ 65535) {j : ParticipantId}
    (hj : j ∈ participants n) {senders : List ParticipantId}
    (h : senders.Perm ((participants n).erase j)) :
    (partyAfter epoch n t ped keys coins j senders).computeNewKey =
      .ok (keys j + ((jointZeroPolynomial n t ped coins).eval (Scalar.ofId j) -
        ((zeroPoly t ped coins j).eval j).value)) := by
  rw [computeNewKey_partyAfter hj hpos (length_order hn hj h).ge, eval_jointZeroPolynomial,
    ← List.sum_map_erase (fun i => ((zeroPoly t ped coins i).eval j).value) hj,
    (h.map fun i => ((zeroPoly t ped coins i).eval j).value).sum_eq, add_sub_cancel_left]

/-- The manager's key of the party `j`. -/
theorem applyContributions_allContributions {j : ParticipantId} (hj : j ∈ participants n) :
    RefreshManager.applyContributions (keys j) j (allContributions epoch n t ped keys coins) =
      .ok (keys j + (jointZeroPolynomial n t ped coins).eval (Scalar.ofId j)) := by
  rw [allContributions_eq, applyContributions_eq _ _ _ hj, eval_jointZeroPolynomial]

/-- A correct refresh has no party that deals itself a share other than zero. -/
theorem RefreshCorrect.eval_own (hpos : 1 ≤ n) (hn : n ≤ 65535)
    (horders : ∀ j ∈ participants n, (orders j).Perm ((participants n).erase j))
    (h : RefreshCorrect epoch n t ped keys coins orders) {j : ParticipantId}
    (hj : j ∈ participants n) : ((zeroPoly t ped coins j).eval j).value = 0 := by
  obtain ⟨newKeys, hrun, _, hmanager⟩ := h
  obtain ⟨state, hcollect, _, hkey, _⟩ := hrun j hj
  rw [collectContributions_eq hj, Except.ok.injEq] at hcollect
  rw [← hcollect, computeNewKey_order hpos hn hj (horders j hj), Except.ok.injEq] at hkey
  have happly := hmanager j hj
  rw [applyContributions_allContributions hj, Except.ok.injEq, ← hkey, add_right_inj] at happly
  exact (sub_eq_self.mp happly.symm)

/-- **Distributed refresh.** For old keys on a polynomial of degree below `t`, a
refresh among parties that follow the protocol does what it promises exactly
when no party draws a polynomial with a nonzero share for itself. -/
theorem refreshCorrect_iff (h2 : 2 ≤ n) (hn : n ≤ 65535) (ht : 1 ≤ t)
    {p : Polynomial Scalar} (hp : p.degree < t)
    (hkeys : ∀ j ∈ participants n, keys j = p.eval (Scalar.ofId j))
    (horders : ∀ j ∈ participants n, (orders j).Perm ((participants n).erase j)) :
    RefreshCorrect epoch n t ped keys coins orders ↔
      ∀ j ∈ participants n, ((zeroPoly t ped coins j).eval j).value = 0 := by
  constructor
  · intro h j hj
    exact h.eval_own (by omega) hn horders hj
  · intro hown
    let joint := jointZeroPolynomial n t ped coins
    have hjoint : joint.degree < t := by
      have h := degree_jointZeroPolynomial_lt n t ped coins
      rwa [max_eq_left ht] at h
    refine ⟨fun j => keys j + joint.eval (Scalar.ofId j), ?_, ?_, ?_⟩
    · intro j hj
      refine ⟨_, collectContributions_eq hj (orders j), ?_, ?_, rfl⟩
      · have hlength := length_order hn hj (horders j hj)
        have hsub : (Outcome.sub n 1 : Outcome RefreshError ℕ) = .ok (n - 1) :=
          Outcome.sub_of_le (by omega)
        simp [RefreshState.allContributionsReceived, partyAfter, startedParty, RefreshState.start,
          RefreshState.new, hsub, hlength]
      · rw [computeNewKey_order (by omega) hn hj (horders j hj), hown j hj, sub_zero]
    · intro ids hnodup hmem hsize
      have hdegree {q : Polynomial Scalar} (hq : q.degree < t) : q.degree < ids.length :=
        lt_of_lt_of_le hq (by exact_mod_cast hsize)
      have hold : (lagrangeCombination ids keys : Outcome RefreshError Scalar) =
          .ok (p.eval 0) :=
        lagrangeCombination_eval hnodup (hdegree hp) fun id hid => hkeys id (hmem id hid)
      have hsum : (p + joint).degree < t :=
        lt_of_le_of_lt (Polynomial.degree_add_le _ _) (max_lt hp hjoint)
      rw [hold, lagrangeCombination_eval hnodup (hdegree hsum) fun id hid => by
        rw [hkeys id (hmem id hid), Polynomial.eval_add], Polynomial.eval_add,
        eval_zero_jointZeroPolynomial, add_zero]
    · intro j hj
      exact applyContributions_allContributions hj

omit [Curve] in
/-- With `t = 1` the drawn polynomials are zero. -/
theorem refreshCorrect_iff_two_parties :
    letI := exponentCurve
    RefreshCorrect 0 2 1 PedersenSetup.deterministic (fun _ => 7) (fun _ _ => 1)
        (fun j => (participants 2).erase j) ↔
      ∀ j ∈ participants 2,
        ((zeroPoly 1 PedersenSetup.deterministic (fun _ _ => 1) j).eval j).value = 0 := by
  let := exponentCurve
  exact refreshCorrect_iff (p := Polynomial.C 7) le_rfl (by norm_num) le_rfl
    (lt_of_le_of_lt Polynomial.degree_C_le (by norm_num)) (fun _ _ => by rw [Polynomial.eval_C])
    fun _ _ => List.Perm.refl _

omit [Curve] in
/-- Two parties with `t = 2`, of which the first draws the polynomial `x` and the
second draws zero: the first party misses its own contribution. -/
theorem distributed_refresh_loses_own_share :
    letI := exponentCurve
    ¬ RefreshCorrect 0 2 2 PedersenSetup.deterministic (fun _ => 7)
      (fun j _ => if j = 1 then 1 else 0) (fun j => (participants 2).erase j) := by
  let := exponentCurve
  intro h
  have hzero := h.eval_own (by norm_num) (by norm_num) (fun _ _ => List.Perm.refl _)
    (show (1 : ParticipantId) ∈ participants 2 by decide)
  have hone : ((zeroPoly 2 PedersenSetup.deterministic
      (fun j _ => if j = 1 then 1 else 0) 1).eval 1).value = 1 := by
    simp [zeroPoly, PrivatePoly.eval, PrivatePoly.randomWithZeroConstant,
      PrivatePoly.drawCoefficients, Scalar.ofId_eq_natCast]
  exact one_ne_zero (hone.symm.trans hzero)

end Sigimora.Refresh
