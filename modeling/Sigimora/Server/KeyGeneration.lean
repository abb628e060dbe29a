import Sigimora.Crypto.DkgCorrectness
import Sigimora.Server.Routes

/-!
# Key generation in memory

The server runs all parties of a key generation itself. Its loops over the pairs
of indices are one complete exchange among parties that follow the protocol, so
that all nodes obtain shares of one polynomial and the same collective key.
-/

namespace Sigimora.Server

open Pedersen

variable [Curve]

/-- The setup that the server uses. -/
abbrev serverSetup : PedersenSetup := PedersenSetup.deterministic

variable (n t : ℕ) (coins : PartyDraws)

/-- The states of the parties after the deliveries, by position. -/
def statesAfter (deliveries : List Delivery) : List DkgState :=
  (List.range n).map fun i => partyAfter n t serverSetup coins deliveries (UInt16.ofNat (i + 1))

/-- The deliveries of one loop over the index pairs. -/
def loopDeliveries (make : ParticipantId → ParticipantId → Delivery) (pairs : List (ℕ × ℕ)) :
    List Delivery :=
  pairs.map fun pair => make (UInt16.ofNat (pair.1 + 1)) (UInt16.ofNat (pair.2 + 1))

variable {n t coins}

/-- The states of the loop are those of the participants. -/
theorem getElem?_statesAfter (deliveries : List Delivery) {i : ℕ} (hi : i < n) :
    (statesAfter n t coins deliveries)[i]? =
      some (partyAfter n t serverSetup coins deliveries (UInt16.ofNat (i + 1))) := by
  rw [statesAfter, List.getElem?_map, List.getElem?_range hi, Option.map_some]

/-- A delivery replaces the state of its receiver. -/
theorem set_statesAfter (hn : n ≤ 65535) {deliveries : List Delivery} {d : Delivery} {j : ℕ}
    (hj : j < n)
    (hother : ∀ id, id ≠ UInt16.ofNat (j + 1) → d.commitTo id = none ∧ d.shareTo id = none) :
    (statesAfter n t coins deliveries).set j
        (partyAfter n t serverSetup coins (deliveries ++ [d]) (UInt16.ofNat (j + 1))) =
      statesAfter n t coins (deliveries ++ [d]) := by
  refine List.ext_getElem (by simp [statesAfter]) fun k hk _ => ?_
  have hk : k < n := by simpa [statesAfter] using hk
  rw [List.getElem_set]
  split
  · rename_i hjk
    subst hjk
    simp [statesAfter]
  · rename_i hjk
    have hne : UInt16.ofNat (k + 1) ≠ UInt16.ofNat (j + 1) := by
      rw [ne_eq, ofNat_succ_inj hn hk hj]
      exact Ne.symm hjk
    simp only [statesAfter, List.getElem_map, List.getElem_range]
    exact (partyAfter_other (hother _ hne).1 (hother _ hne).2).symm

omit [Curve] in
/-- The loops run over the indices. -/
theorem mem_indexPairs {pair : ℕ × ℕ} (h : pair ∈ indexPairs n) : pair.1 < n ∧ pair.2 < n := by
  obtain ⟨i, j⟩ := pair
  simp only [indexPairs, List.mem_filter, List.pair_mem_product, List.mem_range] at h
  exact h.1

/-- Starting all parties succeeds when the threshold is possible. -/
theorem startStates_eq (hn : n ≤ 65535) (ht : t ≤ n) :
    startStates n t coins = .ok (statesAfter n t coins []) := by
  refine Outcome.mapM_eq_ok fun i hi => ?_
  have hid := ofNat_succ_mem_participants hn (List.mem_range.mp hi)
  simp only [DkgState.new_eq_ok ht hid, Outcome.ok_bind, Outcome.pure_eq_ok, partyAfter_nil]

/-- A pass over the started parties reads the same component of each. -/
theorem mapM_unwrap_statesAfter {β : Type} {read : DkgState → Option β} {value : ParticipantId → β}
    (hread : ∀ id, read (partyAfter n t serverSetup coins [] id) = some (value id)) :
    ((statesAfter n t coins []).mapM fun s => Outcome.unwrap (read s) : Outcome ApiError _) =
      .ok ((List.range n).map fun i => value (UInt16.ofNat (i + 1))) := by
  rw [statesAfter, List.mapM_map]
  refine Outcome.mapM_eq_ok fun i _ => ?_
  rw [Function.comp_apply, hread, Outcome.unwrap_some]

/-- One step of the commit loop delivers one commit. -/
theorem commitStep_statesAfter (hn : n ≤ 65535) (deliveries : List Delivery) {pair : ℕ × ℕ}
    (hpair : pair.1 < n ∧ pair.2 < n) :
    commitStep
        ((List.range n).map fun i => dealtSecret coins (UInt16.ofNat (i + 1)) • G2Point.generator)
        ((List.range n).map fun i => generatePop (dealtSecret coins (UInt16.ofNat (i + 1)))
          (dealtSecret coins (UInt16.ofNat (i + 1)) • G2Point.generator))
        ((List.range n).map fun i => (dealtPoly t serverSetup coins (UInt16.ofNat (i + 1))).commit)
        (statesAfter n t coins deliveries) pair =
      .ok (statesAfter n t coins (deliveries ++
        [.commit (UInt16.ofNat (pair.1 + 1)) (UInt16.ofNat (pair.2 + 1))])) := by
  obtain ⟨i, j⟩ := pair
  obtain ⟨hi, hj⟩ := hpair
  have hindex {β : Type} (value : ParticipantId → β) :
      (Outcome.index ((List.range n).map fun k => value (UInt16.ofNat (k + 1))) i :
        Outcome ApiError β) = .ok (value (UInt16.ofNat (i + 1))) := by
    rw [Outcome.index_eq_ok, List.getElem?_map, List.getElem?_range hi, Option.map_some]
  have hreceiver : (Outcome.index (statesAfter n t coins deliveries) j : Outcome ApiError _) =
      .ok (partyAfter n t serverSetup coins deliveries (UInt16.ofNat (j + 1))) :=
    Outcome.index_eq_ok.mpr (getElem?_statesAfter deliveries hj)
  have hvalid := verifyPop_generatePop (dealtSecret coins (UInt16.ofNat (i + 1)))
  rw [commitStep, hindex fun id => dealtSecret coins id • G2Point.generator, Outcome.ok_bind,
    hindex fun id => generatePop (dealtSecret coins id) (dealtSecret coins id • G2Point.generator),
    Outcome.ok_bind, hindex fun id => (dealtPoly t serverSetup coins id).commit, Outcome.ok_bind,
    hreceiver, Outcome.ok_bind, DkgState.processParticipantCommit_eq_ok hvalid, Outcome.mapErr_ok,
    Outcome.ok_bind, Outcome.pure_eq_ok, ← partyAfter_commit, set_statesAfter hn hj]
  exact fun id hid => ⟨if_neg (Ne.symm hid), rfl⟩

/-- One step of the share loop delivers one share. -/
theorem shareStep_statesAfter (hn : n ≤ 65535) (deliveries : List Delivery) {pair : ℕ × ℕ}
    (hpair : pair.1 < n ∧ pair.2 < n) :
    shareStep (statesAfter n t coins deliveries) pair =
      .ok (statesAfter n t coins (deliveries ++
        [.share (UInt16.ofNat (pair.1 + 1)) (UInt16.ofNat (pair.2 + 1))])) := by
  obtain ⟨i, j⟩ := pair
  obtain ⟨hi, hj⟩ := hpair
  have hstate {k : ℕ} (hk : k < n) :
      (Outcome.index (statesAfter n t coins deliveries) k : Outcome ApiError _) =
        .ok (partyAfter n t serverSetup coins deliveries (UInt16.ofNat (k + 1))) :=
    Outcome.index_eq_ok.mpr (getElem?_statesAfter deliveries hk)
  obtain ⟨_, _, _, hshare⟩ := partyAfter_sends n t serverSetup coins deliveries
    (UInt16.ofNat (i + 1))
  rw [shareStep, hstate hi, Outcome.ok_bind, hshare, Outcome.okOr_some, Outcome.ok_bind, hstate hj,
    Outcome.ok_bind, DkgState.processReceivedShare_eq_ok (opens_partyAfter deliveries _ _),
    Outcome.mapErr_ok, Outcome.ok_bind, Outcome.pure_eq_ok, ← partyAfter_share,
    set_statesAfter hn hj]
  exact fun id hid => ⟨rfl, if_neg (Ne.symm hid)⟩

variable (t coins) in
/-- A loop over index pairs whose steps deliver one message each. -/
theorem foldlM_statesAfter (make : ParticipantId → ParticipantId → Delivery)
    {step : List DkgState → ℕ × ℕ → Outcome ApiError (List DkgState)} {pairs : List (ℕ × ℕ)}
    (hstep : ∀ deliveries, ∀ pair ∈ pairs, step (statesAfter n t coins deliveries) pair =
      .ok (statesAfter n t coins (deliveries ++
        [make (UInt16.ofNat (pair.1 + 1)) (UInt16.ofNat (pair.2 + 1))])))
    (deliveries : List Delivery) :
    pairs.foldlM step (statesAfter n t coins deliveries) =
      .ok (statesAfter n t coins (deliveries ++ loopDeliveries make pairs)) := by
  induction pairs generalizing deliveries with
  | nil => simp [loopDeliveries]
  | cons pair pairs ih =>
    rw [List.foldlM_cons, hstep deliveries pair List.mem_cons_self, Outcome.ok_bind,
      ih fun d p hp => hstep d p (List.mem_cons_of_mem _ hp), List.append_assoc]
    rfl

omit [Curve] in
/-- The two loops together are a complete exchange. -/
theorem loopDeliveries_eq_exchanges (hn : n ≤ 65535) :
    loopDeliveries .commit (indexPairs n) ++ loopDeliveries .share (indexPairs n) =
      exchanges n := by
  have hpairs : exchangePairs n = (indexPairs n).map fun pair =>
      (UInt16.ofNat (pair.1 + 1), UInt16.ofNat (pair.2 + 1)) := by
    have hproduct : (participants n).product (participants n) =
        ((List.range n).product (List.range n)).map fun pair =>
          (UInt16.ofNat (pair.1 + 1), UInt16.ofNat (pair.2 + 1)) := by
      simp [participants_eq hn, List.product, List.flatMap_map, List.map_flatMap,
        Function.comp_def]
    rw [exchangePairs, hproduct, List.filter_map, indexPairs]
    congr 1
    apply List.filter_congr
    rintro ⟨i, j⟩ hij
    rw [List.pair_mem_product, List.mem_range, List.mem_range] at hij
    simp only [Function.comp_apply, ne_eq, ofNat_succ_inj hn hij.1 hij.2]
  rw [exchanges, hpairs, List.map_map, List.map_map]
  rfl

/-- **Key generation in memory.** All nodes obtain shares of one polynomial, and
the same collective key. -/
theorem dkgOutputs_eq_ok (hn : n ≤ 65535) (ht : t ≤ n) (coins : PartyDraws) :
    ∃ outputs, dkgOutputs n t coins = .ok outputs ∧ outputs.length = n ∧
      (∀ entry ∈ outputs.zipIdx,
        entry.1.mySecret = keyShare n t serverSetup coins (UInt16.ofNat (entry.2 + 1))) ∧
      ∀ output ∈ outputs, output.collectivePk = collectiveSecret n coins • G2Point.generator := by
  have hcommits := foldlM_statesAfter t coins .commit
    (fun d pair hpair => commitStep_statesAfter hn d (mem_indexPairs hpair)) []
  have hshares := foldlM_statesAfter t coins .share
    (fun d pair hpair => shareStep_statesAfter hn d (mem_indexPairs hpair))
    (loopDeliveries .commit (indexPairs n))
  rw [loopDeliveries_eq_exchanges hn] at hshares
  obtain ⟨outputs, houtputs, hvalues⟩ := Outcome.mapM_exists (List.range n)
    (f := fun i => Outcome.mapErr (fun e => ApiError.crypto s!"DKG finalize: {e}")
      (partyAfter n t serverSetup coins (exchanges n) (UInt16.ofNat (i + 1))).finalize.1)
    (P := fun i output =>
      output.mySecret = keyShare n t serverSetup coins (UInt16.ofNat (i + 1)) ∧
      output.collectivePk = collectiveSecret n coins • G2Point.generator) (by
        intro i hi
        obtain ⟨output, hfinal, hsecret, _, hpk⟩ := finalize_partyAfter t serverSetup coins
          (List.Perm.refl (exchanges n)) (ofNat_succ_mem_participants hn (List.mem_range.mp hi))
        rw [hfinal]
        exact ⟨output, rfl, hsecret, hpk⟩)
  have hlength : outputs.length = n := by rw [← hvalues.length_eq, List.length_range]
  refine ⟨outputs, ?_, hlength, ?_, ?_⟩
  rotate_left
  · rintro ⟨output, i⟩ hentry
    obtain ⟨hi, rfl⟩ := List.getElem?_eq_some_iff.mp (List.mk_mem_zipIdx_iff_getElem?.mp hentry)
    simpa using (hvalues.get (by simpa [hlength] using hi) hi).1
  · intro output houtput
    obtain ⟨i, hi, rfl⟩ := List.getElem_of_mem houtput
    exact (hvalues.get (by simpa [hlength] using hi) hi).2
  have hsends := partyAfter_sends n t serverSetup coins []
  rw [dkgOutputs, startStates_eq hn ht, Outcome.ok_bind,
    mapM_unwrap_statesAfter fun id => (hsends id).1, Outcome.ok_bind,
    mapM_unwrap_statesAfter fun id => (hsends id).2.1, Outcome.ok_bind,
    mapM_unwrap_statesAfter fun id => (hsends id).2.2.1, Outcome.ok_bind, hcommits,
    Outcome.ok_bind, List.nil_append, hshares, Outcome.ok_bind, statesAfter, List.mapM_map]
  exact houtputs

/-- Only possible thresholds produce output. -/
theorem le_of_dkgOutputs {outputs : List DkgOutput} (h : dkgOutputs n t coins = .ok outputs)
    (hne : outputs ≠ []) : t ≤ n := by
  by_contra ht
  cases n with
  | zero =>
    cases h
    exact hne rfl
  | succ n =>
    rw [dkgOutputs, Outcome.bind_eq_ok] at h
    obtain ⟨states, hstart, _⟩ := h
    have hfirst : (DkgState.new (n + 1) t (UInt16.ofNat (0 + 1)) serverSetup :
        Outcome ApiError DkgState) = Outcome.panic "threshold must be <= total participants" :=
      if_pos ht
    simp only [startStates, List.range_succ_eq_map, List.mapM_cons, hfirst] at hstart
    cases hstart

end Sigimora.Server
