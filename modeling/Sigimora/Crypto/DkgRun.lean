import Mathlib.Data.List.ProdSigma
import Sigimora.Crypto.Dkg

/-!
# Runs of the key generation

A run among parties that follow the protocol: every party starts with random
draws of its own, and then the commits and shares arrive in some order. The
state of a party after a run is given in closed form, as its started state
together with what the deliveries addressed to it contained.
-/

namespace Sigimora

open Pedersen

variable [Curve]

/-- The states of the parties, by id. -/
abbrev Parties := ParticipantId → DkgState

/-- A message on its way from the sender to the receiver. -/
inductive Delivery
  | commit (sender receiver : ParticipantId)
  | share (sender receiver : ParticipantId)
  deriving DecidableEq

/-- Create and start one party. -/
def startParty (n t : ℕ) (ped : PedersenSetup) (coins : ℕ → Scalar) (id : ParticipantId) :
    Outcome CryptoError DkgState := do
  let state ← DkgState.new n t id ped
  return state.start coins

/-- Deliver one message: the sender composes it and the receiver processes it. -/
def deliver (parties : Parties) : Delivery → Outcome CryptoError Parties
  | .commit sender receiver => do
    let publicKey ← Outcome.unwrap (parties sender).myPublicKey
    let pop ← Outcome.unwrap (parties sender).myPop
    let vssPublic ← Outcome.unwrap (parties sender).myVssPublic
    let state ← (parties receiver).processParticipantCommit sender publicKey pop vssPublic
    return Function.update parties receiver state
  | .share sender receiver => do
    let share ← Outcome.unwrap ((parties sender).sharesFor receiver)
    let state ← (parties receiver).processReceivedShare sender share
    return Function.update parties receiver state

/-- Deliver messages one after another. -/
def deliverAll (parties : Parties) (deliveries : List Delivery) : Outcome CryptoError Parties :=
  deliveries.foldlM deliver parties

/-- The ordered pairs of different parties, as the two nested loops visit them. -/
def exchangePairs (n : ℕ) : List (ParticipantId × ParticipantId) :=
  ((participants n).product (participants n)).filter fun pair => pair.1 ≠ pair.2

/-- One commit and one share from each party to each other one. -/
def exchanges (n : ℕ) : List Delivery :=
  (exchangePairs n).map (fun pair => .commit pair.1 pair.2) ++
    (exchangePairs n).map fun pair => .share pair.1 pair.2

/-- The sender of a commit to the receiver. -/
def Delivery.commitTo (receiver : ParticipantId) : Delivery → Option ParticipantId
  | .commit sender target => if target = receiver then some sender else none
  | .share _ _ => none

/-- The sender of a share to the receiver. -/
def Delivery.shareTo (receiver : ParticipantId) : Delivery → Option ParticipantId
  | .commit _ _ => none
  | .share sender target => if target = receiver then some sender else none

/-- The senders of the commits that reached the receiver, in order. -/
def commitSenders (receiver : ParticipantId) (deliveries : List Delivery) : List ParticipantId :=
  deliveries.filterMap (Delivery.commitTo receiver)

/-- The senders of the shares that reached the receiver, in order. -/
def shareSenders (receiver : ParticipantId) (deliveries : List Delivery) : List ParticipantId :=
  deliveries.filterMap (Delivery.shareTo receiver)

/-! ## The state after a run -/

section Run

variable (n t : ℕ) (ped : PedersenSetup) (coins : ParticipantId → ℕ → Scalar)

omit [Curve] in
/-- The secret that the party `i` draws. -/
def dealtSecret (i : ParticipantId) : Scalar := coins i 0

/-- The polynomial that the party `i` draws. -/
def dealtPoly (i : ParticipantId) : PrivatePoly :=
  PrivatePoly.randomWithSecret (coins i 0) t ped fun k => coins i (k + 1)

/-- The started party `j` after the deliveries. -/
def partyAfter (deliveries : List Delivery) (j : ParticipantId) : DkgState :=
  { (DkgState.initial n t j ped).start (coins j) with
    receivedPublicKeys := (commitSenders j deliveries).map fun i =>
      (i, dealtSecret coins i • G2Point.generator)
    receivedPops := (commitSenders j deliveries).map fun i =>
      (i, generatePop (dealtSecret coins i) (dealtSecret coins i • G2Point.generator))
    receivedVssPublics := (commitSenders j deliveries).map fun i =>
      (i, (dealtPoly t ped coins i).commit)
    receivedShares := (shareSenders j deliveries).map fun i =>
      (i, (dealtPoly t ped coins i).eval j) }

/-- The participants are in the state that the deliveries leave them in. -/
def RunState (deliveries : List Delivery) (parties : Parties) : Prop :=
  ∀ j ∈ participants n, parties j = partyAfter n t ped coins deliveries j

variable {n t ped coins}

variable (coins) in
/-- Every participant starts, if the threshold is in reach. -/
theorem startParty_eq_ok (ht : t ≤ n) {id : ParticipantId} (hid : id ∈ participants n) :
    startParty n t ped (coins id) id = .ok ((DkgState.initial n t id ped).start (coins id)) := by
  rw [startParty, DkgState.new_eq_ok ht hid, Outcome.ok_bind, Outcome.pure_eq_ok]

/-- A started party is one without deliveries. -/
theorem partyAfter_nil (j : ParticipantId) :
    partyAfter n t ped coins [] j = (DkgState.initial n t j ped).start (coins j) := rfl

variable (n t ped coins) in
/-- What a party sends does not depend on what it has received. -/
theorem partyAfter_sends (deliveries : List Delivery) (i : ParticipantId) :
    (partyAfter n t ped coins deliveries i).myPublicKey =
        some (dealtSecret coins i • G2Point.generator) ∧
      (partyAfter n t ped coins deliveries i).myPop =
        some (generatePop (dealtSecret coins i) (dealtSecret coins i • G2Point.generator)) ∧
      (partyAfter n t ped coins deliveries i).myVssPublic = some (dealtPoly t ped coins i).commit ∧
      ∀ j, (partyAfter n t ped coins deliveries i).sharesFor j =
        some ((dealtPoly t ped coins i).eval j) :=
  ⟨rfl, rfl, rfl, fun _ => rfl⟩

/-- A delivery to another party leaves the state alone. -/
theorem partyAfter_other {deliveries : List Delivery} {d : Delivery} {j : ParticipantId}
    (hcommit : d.commitTo j = none) (hshare : d.shareTo j = none) :
    partyAfter n t ped coins (deliveries ++ [d]) j = partyAfter n t ped coins deliveries j := by
  simp [partyAfter, commitSenders, shareSenders, List.filterMap_append, hcommit, hshare]

/-- A commit extends the three lists that it is recorded in. -/
theorem partyAfter_commit (deliveries : List Delivery) (i j : ParticipantId) :
    partyAfter n t ped coins (deliveries ++ [.commit i j]) j =
      { partyAfter n t ped coins deliveries j with
        receivedPublicKeys := (partyAfter n t ped coins deliveries j).receivedPublicKeys ++
          [(i, dealtSecret coins i • G2Point.generator)]
        receivedPops := (partyAfter n t ped coins deliveries j).receivedPops ++
          [(i, generatePop (dealtSecret coins i) (dealtSecret coins i • G2Point.generator))]
        receivedVssPublics := (partyAfter n t ped coins deliveries j).receivedVssPublics ++
          [(i, (dealtPoly t ped coins i).commit)] } := by
  simp [partyAfter, commitSenders, shareSenders, List.filterMap_append, Delivery.commitTo,
    Delivery.shareTo]

/-- A share extends the list of shares. -/
theorem partyAfter_share (deliveries : List Delivery) (i j : ParticipantId) :
    partyAfter n t ped coins (deliveries ++ [.share i j]) j =
      { partyAfter n t ped coins deliveries j with
        receivedShares := (partyAfter n t ped coins deliveries j).receivedShares ++
          [(i, (dealtPoly t ped coins i).eval j)] } := by
  simp [partyAfter, commitSenders, shareSenders, List.filterMap_append, Delivery.commitTo,
    Delivery.shareTo]

/-- Replacing the receiver's state by its state after one more delivery. -/
theorem RunState.update {deliveries : List Delivery} {parties : Parties}
    (h : RunState n t ped coins deliveries parties) {d : Delivery} (receiver : ParticipantId)
    (hother : ∀ j, j ≠ receiver → d.commitTo j = none ∧ d.shareTo j = none) :
    RunState n t ped coins (deliveries ++ [d]) (Function.update parties receiver
      (partyAfter n t ped coins (deliveries ++ [d]) receiver)) := by
  intro j hj
  by_cases hjr : j = receiver
  · subst hjr
    rw [Function.update_self]
  · rw [Function.update_of_ne hjr, partyAfter_other (hother j hjr).1 (hother j hjr).2]
    exact h j hj

/-- The commit of a party that follows the protocol is accepted. -/
theorem RunState.deliver_commit {deliveries : List Delivery} {parties : Parties}
    (h : RunState n t ped coins deliveries parties) {i j : ParticipantId}
    (hi : i ∈ participants n) (hj : j ∈ participants n) :
    ∃ parties', deliver parties (.commit i j) = .ok parties' ∧
      RunState n t ped coins (deliveries ++ [.commit i j]) parties' := by
  refine ⟨_, ?_, h.update j ?_⟩
  · obtain ⟨hpk, hpop, hvss, _⟩ := partyAfter_sends n t ped coins deliveries i
    have hvalid := verifyPop_generatePop (dealtSecret coins i)
    rw [deliver, h i hi, h j hj, hpk, hpop, hvss, Outcome.unwrap_some, Outcome.ok_bind,
      Outcome.unwrap_some, Outcome.ok_bind, Outcome.unwrap_some, Outcome.ok_bind,
      DkgState.processParticipantCommit_eq_ok hvalid, Outcome.ok_bind, Outcome.pure_eq_ok,
      partyAfter_commit]
  · intro k hk
    simp [Delivery.commitTo, Delivery.shareTo, Ne.symm hk]

/-- A share opens every commitment that its receiver holds of the sender. -/
theorem opens_partyAfter (deliveries : List Delivery) (i j : ParticipantId) :
    ∀ vss, (i, vss) ∈ (partyAfter n t ped coins deliveries j).receivedVssPublics →
      vss.verifyShare ((dealtPoly t ped coins i).eval j).index
        ((dealtPoly t ped coins i).eval j).value ((dealtPoly t ped coins i).eval j).blinding
        (partyAfter n t ped coins deliveries j).pedersen = true := by
  intro vss hvss
  obtain ⟨k, _, hk⟩ := List.mem_map.mp hvss
  obtain ⟨rfl, rfl⟩ := Prod.mk.inj hk
  exact PrivatePoly.verifyShare_commit _ j

/-- The share of a party that follows the protocol is accepted, whether or not
its commit has arrived. -/
theorem RunState.deliver_share {deliveries : List Delivery} {parties : Parties}
    (h : RunState n t ped coins deliveries parties) {i j : ParticipantId}
    (hi : i ∈ participants n) (hj : j ∈ participants n) :
    ∃ parties', deliver parties (.share i j) = .ok parties' ∧
      RunState n t ped coins (deliveries ++ [.share i j]) parties' := by
  refine ⟨_, ?_, h.update j ?_⟩
  · obtain ⟨_, _, _, hshare⟩ := partyAfter_sends n t ped coins deliveries i
    rw [deliver, h i hi, h j hj, hshare, Outcome.unwrap_some, Outcome.ok_bind,
      DkgState.processReceivedShare_eq_ok (opens_partyAfter deliveries i j), Outcome.ok_bind,
      Outcome.pure_eq_ok, partyAfter_share]
  · intro k hk
    simp [Delivery.commitTo, Delivery.shareTo, Ne.symm hk]

/-- Any deliveries among the participants succeed. -/
theorem RunState.deliverAll {parties : Parties} {before deliveries : List Delivery}
    (h : RunState n t ped coins before parties)
    (hmem : ∀ d ∈ deliveries, ∃ i ∈ participants n, ∃ j ∈ participants n,
      d = .commit i j ∨ d = .share i j) :
    ∃ parties', Sigimora.deliverAll parties deliveries = .ok parties' ∧
      RunState n t ped coins (before ++ deliveries) parties' := by
  induction deliveries generalizing before parties with
  | nil => exact ⟨parties, rfl, by simpa using h⟩
  | cons d deliveries ih =>
    obtain ⟨next, hnext, hstate⟩ : ∃ next, deliver parties d = .ok next ∧
        RunState n t ped coins (before ++ [d]) next := by
      obtain ⟨i, hi, j, hj, rfl | rfl⟩ := hmem d List.mem_cons_self
      · exact h.deliver_commit hi hj
      · exact h.deliver_share hi hj
    obtain ⟨final, hfinal, hrun⟩ := ih hstate fun e he => hmem e (List.mem_cons_of_mem _ he)
    refine ⟨final, ?_, by simpa using hrun⟩
    rw [Sigimora.deliverAll, List.foldlM_cons, hnext, Outcome.ok_bind]
    exact hfinal

end Run

/-! ## Complete exchanges -/

omit [Curve] in
/-- Every two participants exchange, in both directions. -/
theorem mem_exchangePairs {n : ℕ} {pair : ParticipantId × ParticipantId} :
    pair ∈ exchangePairs n ↔
      pair.1 ∈ participants n ∧ pair.2 ∈ participants n ∧ pair.1 ≠ pair.2 := by
  obtain ⟨i, j⟩ := pair
  simp [exchangePairs, List.pair_mem_product, and_assoc]

omit [Curve] in
/-- Every pair exchanges once. -/
theorem nodup_exchangePairs (n : ℕ) : (exchangePairs n).Nodup :=
  ((nodup_participants n).product (nodup_participants n)).filter _

omit [Curve] in
/-- Every delivery is a commit or a share from one participant to another. -/
theorem mem_exchanges {n : ℕ} {d : Delivery} (h : d ∈ exchanges n) :
    ∃ i ∈ participants n, ∃ j ∈ participants n, d = .commit i j ∨ d = .share i j := by
  rcases List.mem_append.mp h with h | h
  · obtain ⟨pair, hpair, rfl⟩ := List.mem_map.mp h
    have hmem := mem_exchangePairs.mp hpair
    exact ⟨pair.1, hmem.1, pair.2, hmem.2.1, Or.inl rfl⟩
  · obtain ⟨pair, hpair, rfl⟩ := List.mem_map.mp h
    have hmem := mem_exchangePairs.mp hpair
    exact ⟨pair.1, hmem.1, pair.2, hmem.2.1, Or.inr rfl⟩

omit [Curve] in
/-- The senders of the pairs that address one party are all the other parties. -/
theorem perm_senders {n : ℕ} {j : ParticipantId} (hj : j ∈ participants n) :
    ((exchangePairs n).filterMap fun pair => if pair.2 = j then some pair.1 else none).Perm
      ((participants n).erase j) := by
  refine (List.perm_ext_iff_of_nodup ?_ ((nodup_participants n).erase j)).mpr ?_
  · apply (nodup_exchangePairs n).filterMap
    rintro ⟨a, b⟩ ⟨a', b'⟩ i h h'
    simp only [Option.mem_def, Option.ite_none_right_eq_some, Option.some.injEq] at h h'
    rw [Prod.mk.injEq]
    exact ⟨h.2.trans h'.2.symm, h.1.trans h'.1.symm⟩
  · intro i
    rw [List.mem_filterMap, (nodup_participants n).mem_erase_iff]
    constructor
    · rintro ⟨⟨a, b⟩, hmem, hab⟩
      simp only [Option.ite_none_right_eq_some, Option.some.injEq] at hab
      obtain ⟨rfl, rfl⟩ := hab
      have hpair := mem_exchangePairs.mp hmem
      exact ⟨hpair.2.2, hpair.1⟩
    · rintro ⟨hne, hi⟩
      exact ⟨(i, j), mem_exchangePairs.mpr ⟨hi, hj, hne⟩, by simp⟩

omit [Curve] in
/-- In a complete exchange each party hears one commit from every other party. -/
theorem perm_commitSenders {n : ℕ} {deliveries : List Delivery}
    (h : deliveries.Perm (exchanges n)) {j : ParticipantId} (hj : j ∈ participants n) :
    (commitSenders j deliveries).Perm ((participants n).erase j) := by
  apply (h.filterMap _).trans
  simpa [exchanges, List.filterMap_append, List.filterMap_map, Function.comp_def,
    Delivery.commitTo, Delivery.shareTo] using perm_senders hj

omit [Curve] in
/-- In a complete exchange each party hears one share from every other party. -/
theorem perm_shareSenders {n : ℕ} {deliveries : List Delivery}
    (h : deliveries.Perm (exchanges n)) {j : ParticipantId} (hj : j ∈ participants n) :
    (shareSenders j deliveries).Perm ((participants n).erase j) := by
  apply (h.filterMap _).trans
  simpa [exchanges, List.filterMap_append, List.filterMap_map, Function.comp_def,
    Delivery.commitTo, Delivery.shareTo] using perm_senders hj

end Sigimora
