import Sigimora.Mcp.Protocol

/-!
# What the calls do

For each call, when it returns and what it returns and leaves behind.
-/

namespace Sigimora.Mcp

open Pedersen

variable [Curve]

variable {state state' : McpState} {sender : ParticipantId}

/-- A transition to a phase that may follow. -/
theorem transitionTo_run (phase : McpPhase) (state : McpState) :
    transitionTo phase state =
      if state.phase.follows phase then (.ok (), { state with phase })
      else (Outcome.fail (.invalidStateTransition s!"{state.phase}" s!"{phase}"), state) := by
  unfold transitionTo
  rw [Stateful.get_bind]
  by_cases hfollows : state.phase.follows phase = true
  · rw [if_neg (not_not.mpr hfollows), if_pos hfollows]
    rfl
  · rw [if_pos hfollows, if_neg hfollows]
    rfl

/-- A transition that is allowed changes the phase and nothing else. -/
theorem transitionTo_eq_ok {phase : McpPhase} (h : state.phase.follows phase = true) :
    transitionTo phase state = (.ok (), { state with phase }) := by
  rw [transitionTo_run, if_pos h]

/-- A transition succeeds just if it is allowed, and changes the phase only. -/
theorem transitionTo_eq_ok_iff {phase : McpPhase} :
    transitionTo phase state = (.ok (), state') ↔
      state.phase.follows phase = true ∧ state' = { state with phase } := by
  rw [transitionTo_run]
  by_cases hfollows : state.phase.follows phase = true
  · rw [if_pos hfollows, Prod.mk.injEq, and_iff_right rfl, and_iff_right hfollows, eq_comm]
  · rw [if_neg hfollows]
    constructor
    · intro h
      cases h
    · intro h
      exact absurd h.1 hfollows

/-- A handler of messages moves on to the next phase when enough of them arrived. -/
theorem advance_eq_ok_iff {enough : Prop} [Decidable enough] {phase : McpPhase}
    (hfollows : state.phase.follows phase = true) :
    (if enough then transitionTo phase else pure ()) state = (.ok (), state') ↔
      state' = { state with phase := if enough then phase else state.phase } := by
  by_cases henough : enough
  · rw [if_pos henough, if_pos henough, transitionTo_eq_ok_iff, and_iff_right hfollows]
  · rw [if_neg henough, if_neg henough, Stateful.pure_run, Prod.mk.injEq, and_iff_right rfl,
      eq_comm]

/-- A handler records its message and then looks whether enough of them arrived. -/
theorem record_eq_ok_iff {record : McpState → McpState} {enough : McpState → Prop}
    [DecidablePred enough] {phase : McpPhase} (hphase : (record state).phase = state.phase)
    (hfollows : state.phase.follows phase = true) :
    (Stateful.modify record >>= fun _ => Stateful.get >>= fun state =>
        if enough state then transitionTo phase else pure ()) state = (.ok (), state') ↔
      state' = { record state with
        phase := if enough (record state) then phase else state.phase } := by
  rw [Stateful.modify_bind, Stateful.get_bind, advance_eq_ok_iff (by rw [hphase, hfollows]), hphase]

/-- A handler of messages returns only in its phase. -/
theorem inPhase_eq_ok_iff {α : Type} {phase : McpPhase} {e : McpError} {body : McpCall α} {a : α} :
    (if state.phase ≠ phase then Stateful.fail e else body) state = (.ok a, state') ↔
      state.phase = phase ∧ body state = (.ok a, state') := by
  by_cases hphase : state.phase = phase
  · rw [if_neg (not_not.mpr hphase), and_iff_right hphase]
  · rw [if_pos hphase]
    constructor
    · intro h
      cases h
    · intro h
      exact absurd h.1 hphase

/-! ## Key generation -/

section KeyGeneration

variable [Sha3]

/-- Starting the key generation. -/
theorem startDkg_eq_ok_iff {pedersen : PedersenSetup} {coins zkpCoins : ℕ → Scalar}
    {commit : DkgCommit} :
    startDkg pedersen coins zkpCoins state = (.ok commit, state') ↔
      state.phase = .idle ∧ ∃ dkg, (DkgState.new state.n state.t state.myId pedersen :
          Outcome McpError DkgState) = .ok dkg ∧
        ∃ myPk myVss stakeProof, (dkg.start coins).myPublicKey = some myPk ∧
          (dkg.start coins).myVssPublic = some myVss ∧
          ZkpEngine.generateStakeProof myPk myVss pedersen (dkg.start coins).mySecret zkpCoins =
            .ok stakeProof ∧
          commit = (myPk, myVss, stakeProof) ∧
          state' = { state with
            phase := .dkgCommit
            dkgState := some (dkg.start coins)
            receivedCommits := state.receivedCommits.insert state.myId commit } := by
  have hidle : state.phase.follows .dkgCommit = true ↔ state.phase = .idle := by
    cases state.phase <;> decide
  unfold startDkg
  rw [Stateful.bind_run_eq_ok]
  constructor
  · rintro ⟨_, s₁, htransition, hrest⟩
    obtain ⟨hfollows, rfl⟩ := transitionTo_eq_ok_iff.mp htransition
    rw [Stateful.get_bind, Stateful.lift_bind_eq_ok] at hrest
    obtain ⟨dkg, hnew, hrest⟩ := hrest
    rw [Stateful.lift_bind_eq_ok] at hrest
    obtain ⟨myPk, hpk, hrest⟩ := hrest
    rw [Stateful.lift_bind_eq_ok] at hrest
    obtain ⟨myVss, hvss, hrest⟩ := hrest
    rw [Stateful.lift_bind_eq_ok] at hrest
    obtain ⟨stakeProof, hproof, hrest⟩ := hrest
    rw [Stateful.modify_bind, Stateful.pure_run, Prod.mk.injEq, Except.ok.injEq] at hrest
    obtain ⟨rfl, rfl⟩ := hrest
    exact ⟨hidle.mp hfollows, dkg, hnew, myPk, myVss, stakeProof, Outcome.okOr_eq_ok.mp hpk,
      Outcome.okOr_eq_ok.mp hvss, Outcome.mapErr_eq_ok_iff.mp hproof, rfl, rfl⟩
  · rintro ⟨hphase, dkg, hnew, myPk, myVss, stakeProof, hpk, hvss, hproof, rfl, rfl⟩
    refine ⟨(), _, transitionTo_eq_ok (hidle.mpr hphase), ?_⟩
    rw [Stateful.get_bind, Stateful.lift_bind_eq_ok]
    refine ⟨dkg, hnew, ?_⟩
    rw [Stateful.lift_bind_eq_ok]
    refine ⟨myPk, Outcome.okOr_eq_ok.mpr hpk, ?_⟩
    rw [Stateful.lift_bind_eq_ok]
    refine ⟨myVss, Outcome.okOr_eq_ok.mpr hvss, ?_⟩
    rw [Stateful.lift_bind_eq_ok]
    refine ⟨stakeProof, Outcome.mapErr_eq_ok_iff.mpr hproof, ?_⟩
    rw [Stateful.modify_bind, Stateful.pure_run]

/-- Recording a commit. -/
theorem processDkgCommit_eq_ok_iff {publicKey : G2Point} {vssPublic : VssPublic}
    {stakeProof : StakeProof} :
    processDkgCommit sender publicKey vssPublic stakeProof state = (.ok (), state') ↔
      state.phase = .dkgCommit ∧
      ZkpEngine.verifyStakeProof publicKey vssPublic stakeProof = .ok () ∧
      state' = { state with
        receivedCommits := state.receivedCommits.insert sender (publicKey, vssPublic, stakeProof)
        phase := if (state.receivedCommits.insert sender
            (publicKey, vssPublic, stakeProof)).keys.card ≥ state.n then .dkgShare
          else .dkgCommit } := by
  unfold processDkgCommit
  rw [Stateful.get_bind, inPhase_eq_ok_iff]
  refine and_congr_right fun hphase => ?_
  rw [Stateful.check_bind_eq_ok]
  refine and_congr_right fun _ => ?_
  rw [record_eq_ok_iff rfl (by rw [hphase]; rfl), hphase]

end KeyGeneration

/-- Recording a share. -/
theorem processDkgShare_eq_ok_iff {encryptedShare : List UInt8}
    {complianceProof : ComplianceProof} :
    processDkgShare sender encryptedShare complianceProof state = (.ok (), state') ↔
      state.phase = .dkgShare ∧
      ZkpEngine.verifyComplianceProof sender encryptedShare complianceProof = .ok () ∧
      1 ≤ state.n ∧
      state' = { state with
        receivedShares := state.receivedShares ++ [(sender, encryptedShare, complianceProof)]
        phase := if state.receivedShares.length + 1 ≥ state.n - 1 then .dkgVerify
          else .dkgShare } := by
  unfold processDkgShare
  rw [Stateful.get_bind, inPhase_eq_ok_iff]
  refine and_congr_right fun hphase => ?_
  rw [Stateful.check_bind_eq_ok]
  refine and_congr_right fun _ => ?_
  rw [Stateful.modify_bind, Stateful.get_bind, Stateful.lift_bind_eq_ok]
  constructor
  · rintro ⟨needed, hsub, hrest⟩
    obtain ⟨hn, rfl⟩ := Outcome.sub_eq_ok_iff.mp hsub
    rw [advance_eq_ok_iff (by rw [hphase]; rfl)] at hrest
    refine ⟨hn, ?_⟩
    rw [hrest, hphase, List.length_append, List.length_singleton]
  · rintro ⟨hn, rfl⟩
    refine ⟨_, Outcome.sub_of_le hn, ?_⟩
    rw [advance_eq_ok_iff (by rw [hphase]; rfl), hphase, List.length_append,
      List.length_singleton]

/-- Distributing a share changes nothing. -/
theorem distributeDkgShare_state [Cipher] (recipient : ParticipantId) (coins : ShareCoins)
    (nonce : Scalar) (state : McpState) :
    (distributeDkgShare recipient coins nonce state).2 = state := by
  unfold distributeDkgShare
  rw [Stateful.get_bind]
  refine Stateful.lift_bind_state fun dkg => ?_
  refine Stateful.lift_bind_state fun share => ?_
  refine Stateful.lift_bind_state fun recipientPk => ?_
  exact Stateful.lift_bind_state fun complianceProof => rfl

/-! ## Signing -/

/-- Beginning a round. -/
theorem startSigningRound_eq_ok_iff :
    startSigningRound state = (.ok (), state') ↔ state.phase = .ready ∧
      state' = { state with
        phase := .signCommit, receivedSignCommits := ∅, receivedSignReveals := [] } := by
  have hready : state.phase.follows .signCommit = true ↔ state.phase = .ready := by
    cases state.phase <;> decide
  unfold startSigningRound
  rw [Stateful.bind_run_eq_ok]
  constructor
  · rintro ⟨_, s₁, htransition, hrest⟩
    obtain ⟨hfollows, rfl⟩ := transitionTo_eq_ok_iff.mp htransition
    exact ⟨hready.mp hfollows, (Prod.mk.inj hrest).2.symm⟩
  · rintro ⟨hphase, rfl⟩
    exact ⟨(), _, transitionTo_eq_ok (hready.mpr hphase), rfl⟩

/-- Recording a commitment. -/
theorem processSignCommitment_eq_ok_iff [Sha3] {commitment : G1Point}
    {membershipProof : MembershipProof} :
    processSignCommitment sender commitment membershipProof state = (.ok (), state') ↔
      state.phase = .signCommit ∧
      (∃ params, state.networkParams = some params ∧
        ZkpEngine.verifyMembershipProof sender membershipProof params = .ok ()) ∧
      state' = { state with
        receivedSignCommits :=
          state.receivedSignCommits.insert sender (commitment, membershipProof)
        phase := if (state.receivedSignCommits.insert sender
            (commitment, membershipProof)).keys.card ≥ state.t + 1 then .signReveal
          else .signCommit } := by
  unfold processSignCommitment
  rw [Stateful.get_bind, inPhase_eq_ok_iff]
  refine and_congr_right fun hphase => ?_
  rw [Stateful.lift_bind_eq_ok]
  constructor
  · rintro ⟨params, hparams, hrest⟩
    rw [Stateful.check_bind_eq_ok] at hrest
    obtain ⟨hverify, hrest⟩ := hrest
    rw [record_eq_ok_iff rfl (by rw [hphase]; rfl), hphase] at hrest
    exact ⟨⟨params, Outcome.okOr_eq_ok.mp hparams, hverify⟩, hrest⟩
  · rintro ⟨⟨params, hparams, hverify⟩, hstate⟩
    refine ⟨params, Outcome.okOr_eq_ok.mpr hparams, ?_⟩
    rw [Stateful.check_bind_eq_ok]
    refine ⟨hverify, ?_⟩
    rw [record_eq_ok_iff rfl (by rw [hphase]; rfl), hphase]
    exact hstate

/-- Making a commitment changes nothing. -/
theorem createSignCommitment_state [Sha3] (msg : List UInt8) (signer : Ats.SignerConfig)
    (nonce : Scalar) (state : McpState) :
    (createSignCommitment msg signer nonce state).2 = state := by
  unfold createSignCommitment
  rw [Stateful.get_bind]
  refine Stateful.lift_bind_state fun params => ?_
  exact Stateful.lift_bind_state fun membershipProof => rfl

/-- Making a partial signature changes nothing. -/
theorem createSignReveal_state [Cipher] (msg : List UInt8) (signer : Ats.SignerConfig)
    (trackingPk : G2Point) (coins : Ats.TagCoins) (nonce : Scalar) (state : McpState) :
    (createSignReveal msg signer trackingPk coins nonce state).2 = state := by
  unfold createSignReveal
  rw [Stateful.get_bind]
  exact Stateful.lift_bind_state fun complianceProof => rfl

/-- Recording a partial signature. -/
theorem processSignReveal_eq_ok_iff {partialSig : Ats.PartialSignature}
    {complianceProof : ComplianceProof} :
    processSignReveal sender partialSig complianceProof state = (.ok (), state') ↔
      state.phase = .signReveal ∧
      ZkpEngine.verifyComplianceProof sender partialSig.sigma.toBytes complianceProof = .ok () ∧
      state' = { state with
        receivedSignReveals := state.receivedSignReveals ++ [(sender, partialSig, complianceProof)]
        phase := if state.receivedSignReveals.length + 1 ≥ state.t + 1 then .signCombine
          else .signReveal } := by
  unfold processSignReveal
  rw [Stateful.get_bind, inPhase_eq_ok_iff]
  refine and_congr_right fun hphase => ?_
  rw [Stateful.check_bind_eq_ok]
  refine and_congr_right fun _ => ?_
  rw [record_eq_ok_iff rfl (by rw [hphase]; rfl), hphase, List.length_append,
    List.length_singleton]
  rfl

end Sigimora.Mcp
