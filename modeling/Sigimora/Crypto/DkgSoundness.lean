import Sigimora.Crypto.DkgFinalize
import Sigimora.Crypto.Shamir

/-!
# Malicious dealers

A run with some honest parties. Every dealer sends one and the same commit to
all of them, and the shares that they record are evaluations of the polynomials
that the dealer committed to. No party checks that a published key belongs to a
committed polynomial, or that there are at most `t + 1` commitments. The honest
parties therefore hold shares of the collective key exactly when the sums of the
dealt polynomials and of the published keys happen to match.
-/

namespace Sigimora

open Pedersen Shamir

variable [Curve]

/-- What a dealer publishes, with the polynomials behind its commitments. -/
structure Dealing where
  publicKey : G2Point
  pop : G1Point
  poly : PrivatePoly

/-- The messages that a party recorded are those of the dealings. -/
structure RecordsDealings (dealing : ParticipantId → Dealing) (state : DkgState) : Prop where
  publicKeys : ∀ entry ∈ state.receivedPublicKeys, entry.2 = (dealing entry.1).publicKey
  pops : ∀ entry ∈ state.receivedPops, entry.2 = (dealing entry.1).pop
  vssPublics : ∀ entry ∈ state.receivedVssPublics, entry.2 = (dealing entry.1).poly.commit
  shares : ∀ entry ∈ state.receivedShares,
    entry.2.value = ((dealing entry.1).poly.eval state.myId).value ∧
      entry.2.blinding = ((dealing entry.1).poly.eval state.myId).blinding

/-- A run of the honest parties, among dealers that may do anything else. -/
structure DealtRun (n t : ℕ) (ped : PedersenSetup) where
  honest : List ParticipantId
  calls : ParticipantId → List DkgCall
  dealing : ParticipantId → Dealing
  nodup : honest.Nodup
  participates : ∀ j ∈ honest, j ∈ participants n
  committed : ∀ i, (dealing i).poly.pedersen = ped ∧
    (dealing i).poly.coeffsF.length = (dealing i).poly.coeffsR.length
  /-- An honest party deals what it drew. -/
  own : ∀ j ∈ honest,
    (Run.after DkgState.call (DkgState.initial n t j ped) (calls j)).myPublicKey =
        some (dealing j).publicKey ∧
      (Run.after DkgState.call (DkgState.initial n t j ped) (calls j)).myPop =
        some (dealing j).pop ∧
      (Run.after DkgState.call (DkgState.initial n t j ped) (calls j)).myVssPoly =
        some (dealing j).poly
  recorded : ∀ j ∈ honest,
    RecordsDealings dealing (Run.after DkgState.call (DkgState.initial n t j ped) (calls j))

namespace DealtRun

variable {n t : ℕ} {ped : PedersenSetup} (run : DealtRun n t ped)

/-- The party `j` after the run. -/
def party (j : ParticipantId) : DkgState :=
  Run.after DkgState.call (DkgState.initial n t j ped) (run.calls j)

/-- The dealers whose shares the party `j` counts. -/
def sharesCounted (qualSet : List ParticipantId) (j : ParticipantId) : List ParticipantId :=
  ((run.party j).receivedShares.map Prod.fst).filter (fun i => i ∈ qualSet) ++
    if j ∈ qualSet then [j] else []

/-- The dealers whose keys the party `j` counts. -/
def keysCounted (qualSet : List ParticipantId) (j : ParticipantId) : List ParticipantId :=
  (if j ∈ qualSet then [j] else []) ++
    ((run.party j).receivedPublicKeys.map Prod.fst).filter fun i => i ∈ qualSet

/-- The shares that the honest parties count add up to values of a polynomial of
degree at most `t`, and the keys that they count to its value at zero. -/
def Matching (qualSet : List ParticipantId) : Prop :=
  ∃ p : Polynomial Scalar, p.degree < (t + 1 : ℕ) ∧ ∀ j ∈ run.honest,
    ((run.sharesCounted qualSet j).map fun i => ((run.dealing i).poly.eval j).value).sum =
      p.eval (Scalar.ofId j) ∧
    ((run.keysCounted qualSet j).map fun i => (run.dealing i).publicKey).sum =
      p.eval 0 • G2Point.generator

variable {run} {qualSet : List ParticipantId} {j : ParticipantId}

/-- Every participant keeps its own id. -/
theorem myId_party (j : ParticipantId) : (run.party j).myId = j := by
  have hframe (state : DkgState) (calls : List DkgCall) :
      (Run.after DkgState.call state calls).myId = state.myId := by
    induction calls generalizing state with
    | nil => rfl
    | cons call calls ih => exact (ih _).trans (state.call_frame call).1
  exact hframe _ _

/-- The share of a participant is the value of the polynomial whose shares it has counted. -/
theorem sum_shareTerms (hj : j ∈ run.honest)
    (hqual : (run.party j).buildQualSet.qualSet = qualSet) :
    ((run.party j).buildQualSet.shareTerms.map Prod.snd).sum =
      ((run.sharesCounted qualSet j).map fun i => ((run.dealing i).poly.eval j).value).sum := by
  have hid : (run.party j).buildQualSet.myId = j := myId_party j
  have hown : (run.party j).buildQualSet.myVssPoly = some (run.dealing j).poly :=
    (run.own j hj).2.2
  have hvalue : ∀ entry ∈ (run.party j).receivedShares,
      entry.2.value = ((run.dealing entry.1).poly.eval j).value := by
    intro entry hentry
    have hshare := ((run.recorded j hj).shares entry hentry).1
    rwa [show (Run.after _ _ _ : DkgState).myId = j from myId_party j] at hshare
  have hreceived : ((run.party j).receivedShares.filter fun entry => entry.1 ∈ qualSet).map
        (fun entry => entry.2.value) =
      (((run.party j).receivedShares.map Prod.fst).filter fun i => i ∈ qualSet).map
        fun i => ((run.dealing i).poly.eval j).value := by
    rw [List.filter_map, List.map_map]
    refine List.map_congr_left fun entry hentry => ?_
    exact hvalue entry (List.mem_of_mem_filter hentry)
  unfold DkgState.shareTerms sharesCounted
  rw [hqual, hid, hown, List.map_append, List.map_map, List.map_append]
  refine congrArg List.sum (congrArg₂ _ hreceived ?_)
  split <;> rfl

/-- The collective key is the sum of the keys that were counted. -/
theorem sum_keyTerms (hj : j ∈ run.honest) (hqual : (run.party j).buildQualSet.qualSet = qualSet) :
    ((run.party j).buildQualSet.keyTerms.map Prod.snd).sum =
      ((run.keysCounted qualSet j).map fun i => (run.dealing i).publicKey).sum := by
  have hid : (run.party j).buildQualSet.myId = j := myId_party j
  have hown : (run.party j).buildQualSet.myPublicKey = some (run.dealing j).publicKey :=
    (run.own j hj).1
  have hreceived : ((run.party j).receivedPublicKeys.filter fun entry => entry.1 ∈ qualSet).map
        Prod.snd =
      (((run.party j).receivedPublicKeys.map Prod.fst).filter fun i => i ∈ qualSet).map
        fun i => (run.dealing i).publicKey := by
    rw [List.filter_map, List.map_map]
    refine List.map_congr_left fun entry hentry => ?_
    exact (run.recorded j hj).publicKeys entry (List.mem_of_mem_filter hentry)
  unfold DkgState.keyTerms keysCounted
  rw [hqual, hid, hown, List.map_append, List.map_map, List.map_append]
  refine congrArg List.sum (congrArg₂ _ ?_ hreceived)
  split <;> rfl

/-- What an honest party outputs, in terms of the dealings. -/
theorem output_eq {output : DkgOutput} (hj : j ∈ run.honest)
    (hok : (run.party j).finalize.1 = .ok output) (hqual : output.qualSet = qualSet) :
    output.myPublicKey =
        ((run.sharesCounted qualSet j).map fun i => ((run.dealing i).poly.eval j).value).sum •
          G2Point.generator ∧
      output.collectivePk =
        ((run.keysCounted qualSet j).map fun i => (run.dealing i).publicKey).sum := by
  obtain ⟨_, rfl⟩ := DkgState.finalize_eq_ok_iff.mp hok
  rw [← sum_shareTerms hj hqual, ← sum_keyTerms hj hqual]
  exact ⟨rfl, rfl⟩

/-- No honest participant has the id zero. -/
theorem zero_notMem_honest : (0 : Scalar) ∉ nodes run.honest :=
  zero_notMem_nodes fun j hj => ne_zero_of_mem_participants (run.participates j hj)

/-- The public shares of the honest parties combine to one point exactly when
their secret shares lie on one polynomial. -/
theorem combine_publicKeys_iff {share : ParticipantId → Scalar} {secret : Scalar}
    (hmany : t + 1 ≤ run.honest.length) :
    (∀ ids : List ParticipantId, ids.Nodup → (∀ id ∈ ids, id ∈ run.honest) →
        ids.length = t + 1 →
        lagrangeCombination ids (fun i => share i • G2Point.generator) =
          (.ok (secret • G2Point.generator) : Outcome CryptoError G2Point)) ↔
      ∃ p : Polynomial Scalar, p.degree < (t + 1 : ℕ) ∧ p.eval 0 = secret ∧
        ∀ j ∈ run.honest, p.eval (Scalar.ofId j) = share j := by
  have hnodes : t + 1 ≤ (nodes run.honest).card := by
    rwa [card_nodes run.nodup]
  rw [← interpolates_iff, Interpolation.interpolates_smul_iff G2Point.generator_ne_zero,
    Interpolation.interpolates_iff_exists_polynomial (Nat.succ_pos t) hnodes zero_notMem_honest]
  refine exists_congr fun p => and_congr_right fun _ => and_congr_right fun _ => ?_
  constructor
  · intro h j hj
    rw [h _ (mem_nodes.mpr ⟨j, hj, rfl⟩), idOf_ofId]
  · intro h x hx
    obtain ⟨j, hj, rfl⟩ := mem_nodes.mp hx
    rw [h j hj, idOf_ofId]

/-- **Malicious dealers.** The public shares of every quorum of honest parties
combine to the collective key that each of them outputs exactly when there is no
such quorum, or the counted polynomials and keys match. -/
theorem publicKeys_combine_iff {outputs : ParticipantId → DkgOutput}
    (hok : ∀ j ∈ run.honest, (run.party j).finalize.1 = .ok (outputs j))
    (hqual : ∀ j ∈ run.honest, (outputs j).qualSet = qualSet) :
    (∀ ids : List ParticipantId, ids.Nodup → (∀ id ∈ ids, id ∈ run.honest) →
        ids.length = t + 1 → ∀ j ∈ run.honest,
        lagrangeCombination ids (fun i => (outputs i).myPublicKey) =
          (.ok (outputs j).collectivePk : Outcome CryptoError G2Point)) ↔
      run.honest.length < t + 1 ∨ run.Matching qualSet := by
  let share (j : ParticipantId) : Scalar :=
    ((run.sharesCounted qualSet j).map fun i => ((run.dealing i).poly.eval j).value).sum
  have hshare : ∀ j ∈ run.honest, (outputs j).myPublicKey = share j • G2Point.generator :=
    fun j hj => (output_eq hj (hok j hj) (hqual j hj)).1
  have hkey : ∀ j ∈ run.honest, (outputs j).collectivePk =
      ((run.keysCounted qualSet j).map fun i => (run.dealing i).publicKey).sum :=
    fun j hj => (output_eq hj (hok j hj) (hqual j hj)).2
  have hcombination (ids : List ParticipantId) (hmem : ∀ id ∈ ids, id ∈ run.honest) :
      (lagrangeCombination ids (fun i => (outputs i).myPublicKey) : Outcome CryptoError _) =
        lagrangeCombination ids fun i => share i • G2Point.generator := by
    unfold lagrangeCombination
    rw [List.map_congr_left fun i hi => hshare i (hmem i hi)]
  constructor
  · intro h
    by_cases hfew : run.honest.length < t + 1
    · exact Or.inl hfew
    have hmany := not_lt.mp hfew
    obtain ⟨j₀, hj₀⟩ : ∃ j₀, j₀ ∈ run.honest := List.exists_mem_of_length_pos (by omega)
    obtain ⟨secret, hsecret⟩ := Curve.exists_smul_g2 (outputs j₀).collectivePk
    obtain ⟨p, hdegree, hzero, hvalues⟩ := (combine_publicKeys_iff hmany).mp
      fun ids hnodup hmem hlength => by
        rw [← hcombination ids hmem, h ids hnodup hmem hlength j₀ hj₀, hsecret]
        rfl
    refine Or.inr ⟨p, hdegree, fun j hj => ⟨(hvalues j hj).symm, ?_⟩⟩
    -- any quorum shows that the parties output the same key
    have hquorum := h (run.honest.take (t + 1)) (run.nodup.sublist (List.take_sublist _ _))
      (fun id hid => List.mem_of_mem_take hid) (by rw [List.length_take]; omega)
    have hsame : (outputs j).collectivePk = (outputs j₀).collectivePk :=
      Except.ok.inj ((hquorum j hj).symm.trans (hquorum j₀ hj₀))
    rw [← hkey j hj, hsame, hsecret, hzero]
    rfl
  · rintro (hfew | ⟨p, hdegree, hmatch⟩) ids hnodup hmem hlength j hj
    · have hle := (hnodup.subperm hmem).length_le
      omega
    · rw [hcombination ids hmem, hkey j hj, (hmatch j hj).2]
      refine lagrangeCombination_smul hnodup (by rwa [hlength]) fun i hi => ?_
      rw [show share i = _ from (hmatch i (hmem i hi)).1]

/-! ## Matching dealers -/

omit [Curve] in
/-- With one message of every other qualified party, every qualified party counts once. -/
theorem perm_counted {senders : List ParticipantId} (hnodup : qualSet.Nodup)
    (hothers : ∀ i ∈ qualSet, i ≠ j → senders.count i = 1)
    (hnobody : j ∈ qualSet → j ∉ senders) :
    (senders.filter (fun i => i ∈ qualSet) ++ if j ∈ qualSet then [j] else []).Perm qualSet := by
  refine List.perm_iff_count.mpr fun i => ?_
  rw [List.count_append]
  by_cases hi : i ∈ qualSet
  · rw [List.count_filter (by simpa using hi), List.count_eq_one_of_mem hnodup hi]
    by_cases hij : i = j
    · subst hij
      rw [List.count_eq_zero.mpr (hnobody hi), if_pos hi, List.count_singleton_self]
    · rw [hothers i hi hij]
      split <;> simp [Ne.symm hij]
  · have hown : i ∉ if j ∈ qualSet then [j] else [] := by
      split
      · rename_i hj
        intro hmem
        rw [List.mem_singleton.mp hmem] at hi
        exact hi hj
      · exact List.not_mem_nil
    rw [List.count_eq_zero.mpr hi, List.count_eq_zero.mpr hown,
      List.count_eq_zero.mpr (by simp [hi])]

/-- A party that heard everybody once counts every qualified dealer once. -/
theorem perm_counted_of_heardOnce (hqual : (run.party j).buildQualSet.qualSet = qualSet)
    (honce : (run.party j).buildQualSet.HeardOnce) :
    (run.sharesCounted qualSet j).Perm qualSet ∧ (run.keysCounted qualSet j).Perm qualSet := by
  have hid : (run.party j).buildQualSet.myId = j := myId_party j
  have hnodup : qualSet.Nodup := by
    rw [← hqual]
    exact (nodup_participants _).filter _
  have hothers := honce.others
  have hnobody := honce.nobodyElse
  rw [hqual, hid] at hothers hnobody
  constructor
  · exact perm_counted hnodup (fun i hi hij => (hothers i hi hij).1) fun h => (hnobody h).1
  · apply List.perm_append_comm.trans
    exact perm_counted hnodup (fun i hi hij => (hothers i hi hij).2) fun h => (hnobody h).2

/-- Dealers that publish the key of a polynomial of degree at most `t` match, if
the honest parties heard each qualified one once. -/
theorem matching_of_published
    (hqual : ∀ j ∈ run.honest, (run.party j).buildQualSet.qualSet = qualSet)
    (honce : ∀ j ∈ run.honest, (run.party j).buildQualSet.HeardOnce)
    (hpublished : ∀ i ∈ qualSet, (run.dealing i).poly.coeffsF.length ≤ t + 1 ∧
      (run.dealing i).publicKey =
        (run.dealing i).poly.toPolynomial.eval 0 • G2Point.generator) :
    run.Matching qualSet := by
  refine ⟨(qualSet.map fun i => (run.dealing i).poly.toPolynomial).sum, ?_, ?_⟩
  · rw [← Polynomial.mem_degreeLT]
    refine list_sum_mem fun p hp => ?_
    obtain ⟨i, hi, rfl⟩ := List.mem_map.mp hp
    apply Polynomial.mem_degreeLT.mpr
    apply lt_of_lt_of_le (Horner.degree_toPolynomial_lt _)
    exact_mod_cast (hpublished i hi).1
  · intro j hj
    obtain ⟨hshares, hkeys⟩ := perm_counted_of_heardOnce (hqual j hj) (honce j hj)
    rw [(hshares.map _).sum_eq, (hkeys.map _).sum_eq, Polynomial.eval_listSum,
      Polynomial.eval_listSum, List.map_map, List.map_map]
    constructor
    · refine congrArg List.sum (List.map_congr_left fun i _ => ?_)
      rw [PrivatePoly.eval_value (run.committed i).2, Function.comp_apply]
      exact (Horner.eval_toPolynomial _ _).symm
    · rw [List.sum_smul, List.map_map]
      exact congrArg List.sum (List.map_congr_left fun i hi => (hpublished i hi).2)

end DealtRun

/-! ## Runs in which every message arrives -/

/-- The commit of a dealer and the share that it deals to the party `j`. -/
def Dealing.messages (dealing : ParticipantId → Dealing) (j i : ParticipantId) : List DkgCall :=
  [.processParticipantCommit i (dealing i).publicKey (dealing i).pop (dealing i).poly.commit,
    .processReceivedShare i ((dealing i).poly.eval j)]

/-- The state after the messages of the senders. -/
def DkgState.heard (state : DkgState) (dealing : ParticipantId → Dealing)
    (senders : List ParticipantId) : DkgState :=
  { state with
    receivedPublicKeys :=
      state.receivedPublicKeys ++ senders.map fun i => (i, (dealing i).publicKey)
    receivedPops := state.receivedPops ++ senders.map fun i => (i, (dealing i).pop)
    receivedVssPublics :=
      state.receivedVssPublics ++ senders.map fun i => (i, (dealing i).poly.commit)
    receivedShares :=
      state.receivedShares ++ senders.map fun i => (i, (dealing i).poly.eval state.myId) }

/-- The two messages of a dealer with a valid proof are recorded. -/
theorem after_messages_one {state : DkgState} {dealing : ParticipantId → Dealing}
    {i : ParticipantId} (hpop : verifyPop (dealing i).publicKey (dealing i).pop = true)
    (hpedersen : (dealing i).poly.pedersen = state.pedersen)
    (hvss : ∀ entry ∈ state.receivedVssPublics, entry.2 = (dealing entry.1).poly.commit) :
    Run.after DkgState.call state (Dealing.messages dealing state.myId i) =
      state.heard dealing [i] := by
  let committed := state.call (.processParticipantCommit i (dealing i).publicKey (dealing i).pop
    (dealing i).poly.commit)
  have hcommit : committed =
      { state with
        receivedPublicKeys := state.receivedPublicKeys ++ [(i, (dealing i).publicKey)]
        receivedPops := state.receivedPops ++ [(i, (dealing i).pop)]
        receivedVssPublics := state.receivedVssPublics ++ [(i, (dealing i).poly.commit)] } := by
    simp only [committed, DkgState.call_processParticipantCommit, if_pos hpop]
  have hshares : Run.after DkgState.call state (Dealing.messages dealing state.myId i) =
      committed.orElse
        (committed.processReceivedShare i ((dealing i).poly.eval state.myId)) := rfl
  rw [hshares, hcommit, DkgState.processReceivedShare_eq_ok]
  · rfl
  · intro vss hmem
    have hsame : vss = (dealing i).poly.commit := by
      rcases List.mem_append.mp hmem with hold | hnew
      · exact hvss _ hold
      · exact (Prod.mk.inj (List.mem_singleton.mp hnew)).2
    rw [hsame, ← hpedersen]
    exact PrivatePoly.verifyShare_commit _ state.myId

/-- All messages of dealers with valid proofs are recorded. -/
theorem after_messages {state : DkgState} {dealing : ParticipantId → Dealing}
    {senders : List ParticipantId}
    (hpop : ∀ i ∈ senders, verifyPop (dealing i).publicKey (dealing i).pop = true)
    (hpedersen : ∀ i, (dealing i).poly.pedersen = state.pedersen)
    (hvss : ∀ entry ∈ state.receivedVssPublics, entry.2 = (dealing entry.1).poly.commit) :
    Run.after DkgState.call state (senders.flatMap (Dealing.messages dealing state.myId)) =
      state.heard dealing senders := by
  induction senders generalizing state with
  | nil => simp [DkgState.heard]
  | cons i senders ih =>
    have hfirst := after_messages_one (hpop i List.mem_cons_self) (hpedersen i) hvss
    have hall : ∀ entry ∈ (state.heard dealing [i]).receivedVssPublics,
        entry.2 = (dealing entry.1).poly.commit := by
      intro entry hentry
      rcases List.mem_append.mp hentry with hold | hnew
      · exact hvss entry hold
      · rw [List.mem_singleton.mp hnew]
    have hrest := @ih (state.heard dealing [i])
      (fun k hk => hpop k (List.mem_cons_of_mem _ hk)) hpedersen hall
    have hboth : (state.heard dealing [i]).heard dealing senders =
        state.heard dealing (i :: senders) := by
      simp [DkgState.heard]
    rw [List.flatMap_cons, Run.after_append, hfirst, ← hboth]
    exact hrest

/-- What a party deals that follows the protocol. -/
def honestDealing (t : ℕ) (ped : PedersenSetup) (coins : ℕ → Scalar) : Dealing where
  publicKey := coins 0 • G2Point.generator
  pop := generatePop (coins 0) (coins 0 • G2Point.generator)
  poly := PrivatePoly.randomWithSecret (coins 0) t ped fun k => coins (k + 1)

/-- The calls on a party that starts and then hears every other dealer once. -/
def exchangeCalls (n : ℕ) (coins : ParticipantId → ℕ → Scalar)
    (dealing : ParticipantId → Dealing) (j : ParticipantId) : List DkgCall :=
  .start (coins j) :: ((participants n).erase j).flatMap (Dealing.messages dealing j)

section Exchange

variable {n t : ℕ} {ped : PedersenSetup} {coins : ParticipantId → ℕ → Scalar}
  {dealing : ParticipantId → Dealing}

theorem after_exchangeCalls (hpedersen : ∀ i, (dealing i).poly.pedersen = ped)
    (hpop : ∀ i, verifyPop (dealing i).publicKey (dealing i).pop = true) (j : ParticipantId) :
    Run.after DkgState.call (DkgState.initial n t j ped) (exchangeCalls n coins dealing j) =
      ((DkgState.initial n t j ped).start (coins j)).heard dealing ((participants n).erase j) :=
  show Run.after DkgState.call ((DkgState.initial n t j ped).start (coins j))
      (((participants n).erase j).flatMap (Dealing.messages dealing j)) = _ from
    after_messages (fun i _ => hpop i) hpedersen fun _ hentry => nomatch hentry

/-- The run in which the honest parties hear every other dealer once. -/
def DealtRun.exchange (honest : List ParticipantId) (hnodup : honest.Nodup)
    (hmem : ∀ j ∈ honest, j ∈ participants n)
    (hhonest : ∀ j ∈ honest, dealing j = honestDealing t ped (coins j))
    (hcommitted : ∀ i, (dealing i).poly.pedersen = ped ∧
      (dealing i).poly.coeffsF.length = (dealing i).poly.coeffsR.length)
    (hpop : ∀ i, verifyPop (dealing i).publicKey (dealing i).pop = true) : DealtRun n t ped where
  honest := honest
  calls := exchangeCalls n coins dealing
  dealing := dealing
  nodup := hnodup
  participates := hmem
  committed := hcommitted
  own := by
    intro j hj
    rw [after_exchangeCalls (fun i => (hcommitted i).1) hpop, hhonest j hj]
    exact ⟨rfl, rfl, rfl⟩
  recorded := by
    intro j hj
    rw [after_exchangeCalls (fun i => (hcommitted i).1) hpop]
    refine ⟨?_, ?_, ?_, ?_⟩
    · intro entry hentry
      obtain ⟨i, _, rfl⟩ := List.mem_map.mp hentry
      rfl
    · intro entry hentry
      obtain ⟨i, _, rfl⟩ := List.mem_map.mp hentry
      rfl
    · intro entry hentry
      obtain ⟨i, _, rfl⟩ := List.mem_map.mp hentry
      rfl
    · intro entry hentry
      obtain ⟨i, _, rfl⟩ := List.mem_map.mp hentry
      exact ⟨rfl, rfl⟩

/-- In an exchange nobody is disqualified and everybody is heard once. -/
theorem heardOnce_exchange {run : DealtRun n t ped} {j : ParticipantId} {coin : ℕ → Scalar}
    (hcalls : run.party j =
      ((DkgState.initial n t j ped).start coin).heard dealing ((participants n).erase j)) :
    (run.party j).buildQualSet.qualSet = participants n ∧
      (run.party j).buildQualSet.HeardOnce := by
  have hnodup := (nodup_participants n).erase j
  have hqual : (run.party j).buildQualSet.qualSet = participants n := by
    rw [hcalls]
    exact DkgState.qualSet_buildQualSet rfl
  have hshares : (run.party j).buildQualSet.receivedShares.map Prod.fst =
      (participants n).erase j := by
    rw [hcalls]
    simp [DkgState.buildQualSet, DkgState.heard, DkgState.start, DkgState.initial,
      Function.comp_def]
  have hkeys : (run.party j).buildQualSet.receivedPublicKeys.map Prod.fst =
      (participants n).erase j := by
    rw [hcalls]
    simp [DkgState.buildQualSet, DkgState.heard, DkgState.start, DkgState.initial,
      Function.comp_def]
  have hid : (run.party j).buildQualSet.myId = j := DealtRun.myId_party j
  refine ⟨hqual, ⟨?_, ?_⟩⟩
  · rw [hqual, hid, hshares, hkeys]
    intro i hi hij
    have hone := List.count_eq_one_of_mem hnodup ((List.mem_erase_of_ne hij).mpr hi)
    exact ⟨hone, hone⟩
  · rw [hqual, hid, hshares, hkeys]
    intro _
    exact ⟨(nodup_participants n).not_mem_erase, (nodup_participants n).not_mem_erase⟩

/-- After an exchange the parties finish. -/
theorem finalize_exchange {run : DealtRun n t ped} {j : ParticipantId} {coin : ℕ → Scalar}
    (hj : j ∈ participants n) (hcalls : run.party j =
      ((DkgState.initial n t j ped).start coin).heard dealing ((participants n).erase j)) :
    ∃ output, (run.party j).finalize.1 = .ok output ∧ output.qualSet = participants n := by
  obtain ⟨hqual, _⟩ := heardOnce_exchange hcalls
  have hshares : (run.party j).buildQualSet.receivedShares =
      ((participants n).erase j).map fun i => (i, (dealing i).poly.eval j) := by
    rw [hcalls]
    rfl
  have hown : (run.party j).buildQualSet.myPublicKey = some (coin 0 • G2Point.generator) := by
    rw [hcalls]
    rfl
  have hid : (run.party j).buildQualSet.myId = j := DealtRun.myId_party j
  have haccepts : ¬ (run.party j).buildQualSet.Refuses := by
    rintro (hnobody | hfew | hkeys)
    · rw [hqual] at hnobody
      rw [hnobody] at hj
      exact List.not_mem_nil hj
    · rw [hqual, hshares, List.filter_eq_self.mpr, List.length_map,
        List.length_erase_of_mem hj] at hfew
      · exact lt_irrefl _ hfew
      · intro entry hentry
        obtain ⟨i, hi, rfl⟩ := List.mem_map.mp hentry
        exact decide_eq_true (List.mem_of_mem_erase hi)
    · rw [DkgState.keyTerms, hqual, hid, if_pos hj, hown] at hkeys
      cases hkeys
  exact ⟨_, DkgState.finalize_eq_ok_iff.mpr ⟨haccepts, rfl⟩, hqual⟩

end Exchange

/-! ## A dealer with an unrelated key -/

/-- The dealings of parties that draw zeros, except for a dealer of the constant 7
that publishes the key of the secret `sk`. -/
def dealingWithKey (sk : Scalar) (i : ParticipantId) : Dealing :=
  if i = 3 then
    { publicKey := sk • G2Point.generator
      pop := generatePop sk (sk • G2Point.generator)
      poly := ⟨[(7 : ℕ)], [0], PedersenSetup.deterministic⟩ }
  else honestDealing 1 PedersenSetup.deterministic fun _ => 0

/-- The run of two honest parties with that dealer. -/
def runWithKey (sk : Scalar) : DealtRun 3 1 PedersenSetup.deterministic :=
  @DealtRun.exchange _ 3 1 _ (fun _ _ => 0) (dealingWithKey sk) [1, 2] (by decide)
    (List.forall_iff_forall_mem.mp (by decide +kernel))
    (List.forall_iff_forall_mem.mp ⟨rfl, rfl⟩)
    (by
      intro i
      unfold dealingWithKey
      split <;> exact ⟨rfl, rfl⟩)
    (by
      intro i
      unfold dealingWithKey
      split <;> exact verifyPop_generatePop _)

theorem party_runWithKey (sk : Scalar) (j : ParticipantId) :
    (runWithKey sk).party j =
      ((DkgState.initial 3 1 j PedersenSetup.deterministic).start fun _ => 0).heard
        (dealingWithKey sk) ((participants 3).erase j) := by
  apply after_exchangeCalls
  · exact fun i => ((runWithKey sk).committed i).1
  · intro i
    unfold dealingWithKey
    split <;> exact verifyPop_generatePop _

theorem exists_outputs (sk : Scalar) : ∃ outputs : ParticipantId → DkgOutput,
    ∀ j ∈ (runWithKey sk).honest, ((runWithKey sk).party j).finalize.1 = .ok (outputs j) ∧
      (outputs j).qualSet = participants 3 := by
  have hfinish (j : ParticipantId) : ∃ output, j ∈ (runWithKey sk).honest →
      ((runWithKey sk).party j).finalize.1 = .ok output ∧ output.qualSet = participants 3 := by
    by_cases hj : j ∈ (runWithKey sk).honest
    · obtain ⟨output, houtput⟩ := finalize_exchange
        ((runWithKey sk).participates j hj) (party_runWithKey sk j)
      exact ⟨output, fun _ => houtput⟩
    · exact ⟨((runWithKey sk).party j).outputFor 0 0, fun h => absurd h hj⟩
  choose outputs houtputs using hfinish
  exact ⟨outputs, houtputs⟩

omit [Curve] in
/-- A dealer that publishes the key of its polynomial leaves a usable key. -/
theorem publicKeys_combine_matching :
    letI := exponentCurve
    ∃ outputs : ParticipantId → DkgOutput,
      (∀ j ∈ (runWithKey 7).honest,
        ((runWithKey 7).party j).finalize.1 = .ok (outputs j)) ∧
      ∀ ids : List ParticipantId, ids.Nodup → (∀ id ∈ ids, id ∈ (runWithKey 7).honest) →
        ids.length = 1 + 1 → ∀ j ∈ (runWithKey 7).honest,
        lagrangeCombination ids (fun i => (outputs i).myPublicKey) =
          (.ok (outputs j).collectivePk : Outcome CryptoError G2Point) := by
  let := exponentCurve
  obtain ⟨outputs, houtputs⟩ := exists_outputs 7
  refine ⟨outputs, fun j hj => (houtputs j hj).1, ?_⟩
  refine (DealtRun.publicKeys_combine_iff (fun j hj => (houtputs j hj).1)
    fun j hj => (houtputs j hj).2).mpr (Or.inr ?_)
  apply DealtRun.matching_of_published
  · intro j _
    exact (heardOnce_exchange (party_runWithKey 7 j)).1
  · intro j _
    exact (heardOnce_exchange (party_runWithKey 7 j)).2
  · intro i _
    unfold runWithKey DealtRun.exchange dealingWithKey
    simp only
    split
    · simp [PrivatePoly.toPolynomial, Horner.toPolynomial_cons]
    · refine ⟨?_, ?_⟩
      · rw [honestDealing, (PrivatePoly.length_randomWithSecret _ _ _ _).1]
        decide
      · simp only [honestDealing, PrivatePoly.eval_zero_randomWithSecret]

omit [Curve] in
/-- A dealer with a valid proof of an unrelated key leaves the honest parties with
shares of another key than the collective one. -/
theorem unrelated_key_accepted :
    letI := exponentCurve
    ¬ ∀ (n t : ℕ) (ped : PedersenSetup) (run : DealtRun n t ped)
      (qualSet : List ParticipantId) (outputs : ParticipantId → DkgOutput), t + 1 ≤ n →
      (∀ j ∈ run.honest, (run.party j).finalize.1 = .ok (outputs j)) →
      (∀ j ∈ run.honest, (outputs j).qualSet = qualSet) →
      ∀ ids : List ParticipantId, ids.Nodup → (∀ id ∈ ids, id ∈ run.honest) →
        ids.length = t + 1 → ∀ j ∈ run.honest,
        lagrangeCombination ids (fun i => (outputs i).myPublicKey) =
          (.ok (outputs j).collectivePk : Outcome CryptoError G2Point) := by
  let := exponentCurve
  intro h
  obtain ⟨outputs, houtputs⟩ := exists_outputs 5
  have hcombination := h 3 1 PedersenSetup.deterministic (runWithKey 5) (participants 3) outputs
    (by omega) (fun j hj => (houtputs j hj).1) (fun j hj => (houtputs j hj).2) [1, 2] (by decide)
    (fun _ hid => hid) rfl 1 List.mem_cons_self
  have hshare : ∀ j ∈ [1, 2], (outputs j).myPublicKey = (7 : Scalar) • G2Point.generator := by
    intro j hj
    rw [(DealtRun.output_eq hj (houtputs j hj).1 (houtputs j hj).2).1]
    rcases List.mem_pair.mp hj with rfl | rfl
    · decide +kernel
    · decide +kernel
  have hkey : (outputs 1).collectivePk = (5 : Scalar) • G2Point.generator := by
    have hmem : (1 : ParticipantId) ∈ (runWithKey 5).honest := List.mem_cons_self
    rw [(DealtRun.output_eq hmem (houtputs 1 hmem).1 (houtputs 1 hmem).2).2]
    decide +kernel
  have hdegree : (Polynomial.C 7 : Polynomial Scalar).degree <
      ([1, 2] : List ParticipantId).length :=
    lt_of_le_of_lt Polynomial.degree_C_le (by norm_num)
  have hconstant : ∀ id ∈ ([1, 2] : List ParticipantId), (outputs id).myPublicKey =
      (Polynomial.C 7 : Polynomial Scalar).eval (Scalar.ofId id) • G2Point.generator := by
    intro id hid
    rw [hshare id hid, Polynomial.eval_C]
  have hseven := lagrangeCombination_smul (ε := CryptoError)
    (by decide : ([1, 2] : List ParticipantId).Nodup) hdegree hconstant
  rw [hkey, hseven, Polynomial.eval_C] at hcombination
  exact absurd (Except.ok.inj hcombination) (by decide +kernel)

end Sigimora
