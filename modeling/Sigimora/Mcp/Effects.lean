import Sigimora.Mcp.Atomicity

/-!
# Effects

All that a call can do to the state of a participant. Every invariant of the runs is
proved from this list and not from the calls.
-/

namespace Sigimora.Mcp

open Pedersen Stateful

variable [Curve] [Cipher] [Sha3]

/-- What a call leaves behind. -/
inductive Effect (state : McpState) : McpOperation → McpState → Prop
  | refused {operation : McpOperation} (hfailed : (operation.perform state).1 ≠ .ok ()) :
    Effect state operation state
  | distributed (recipient : ParticipantId) (coins : ShareCoins) (nonce : Scalar) :
    Effect state (.distributeDkgShare recipient coins nonce) state
  | madeCommitment (msg : List UInt8) (signer : Ats.SignerConfig) (nonce : Scalar) :
    Effect state (.createSignCommitment msg signer nonce) state
  | madeReveal (msg : List UInt8) (signer : Ats.SignerConfig) (trackingPk : G2Point)
    (coins : Ats.TagCoins) (nonce : Scalar) :
    Effect state (.createSignReveal msg signer trackingPk coins nonce) state
  | started {pedersen : PedersenSetup} {coins zkpCoins : ℕ → Scalar} {dkg : DkgState}
    {commit : DkgCommit} (hphase : state.phase = .idle)
    (hid : 1 ≤ state.myId.toNat ∧ state.myId.toNat ≤ state.n)
    (hcommit : (startDkg pedersen coins zkpCoins state).1 = .ok commit) :
    Effect state (.startDkg pedersen coins zkpCoins) { state with
      phase := .dkgCommit
      dkgState := some dkg
      receivedCommits := state.receivedCommits.insert state.myId commit }
  | committed {sender : ParticipantId} {publicKey : G2Point} {vssPublic : VssPublic}
    {stakeProof : StakeProof} (hphase : state.phase = .dkgCommit)
    (hproof : ZkpEngine.verifyStakeProof publicKey vssPublic stakeProof = .ok ()) :
    Effect state (.processDkgCommit sender publicKey vssPublic stakeProof) { state with
      receivedCommits := state.receivedCommits.insert sender (publicKey, vssPublic, stakeProof)
      phase := if (state.receivedCommits.insert sender
          (publicKey, vssPublic, stakeProof)).keys.card ≥ state.n then .dkgShare
        else .dkgCommit }
  | shared {sender : ParticipantId} {encryptedShare : List UInt8}
    {complianceProof : ComplianceProof} (hphase : state.phase = .dkgShare)
    (hproof : ZkpEngine.verifyComplianceProof sender encryptedShare complianceProof = .ok ()) :
    Effect state (.processDkgShare sender encryptedShare complianceProof) { state with
      receivedShares := state.receivedShares ++ [(sender, encryptedShare, complianceProof)]
      phase := if state.receivedShares.length + 1 ≥ state.n - 1 then .dkgVerify else .dkgShare }
  | finalized {phase : McpPhase} {dkgState : Option DkgState} (hbefore : state.phase = .dkgShare)
    (hphase : phase = .dkgVerify ∨ phase = .ready) :
    Effect state .finalizeDkg { state with phase, dkgState }
  | roundStarted (hphase : state.phase = .ready) :
    Effect state .startSigningRound { state with
      phase := .signCommit, receivedSignCommits := ∅, receivedSignReveals := [] }
  | signCommitted {sender : ParticipantId} {commitment : G1Point}
    {membershipProof : MembershipProof} {params : Ats.NetworkPublicParams}
    (hphase : state.phase = .signCommit) (hparams : state.networkParams = some params)
    (hproof : ZkpEngine.verifyMembershipProof sender membershipProof params = .ok ()) :
    Effect state (.processSignCommitment sender commitment membershipProof) { state with
      receivedSignCommits :=
        state.receivedSignCommits.insert sender (commitment, membershipProof)
      phase := if (state.receivedSignCommits.insert sender
          (commitment, membershipProof)).keys.card ≥ state.t + 1 then .signReveal
        else .signCommit }
  | revealed {sender : ParticipantId} {partialSig : Ats.PartialSignature}
    {complianceProof : ComplianceProof} (hphase : state.phase = .signReveal)
    (hproof : ZkpEngine.verifyComplianceProof sender partialSig.sigma.toBytes complianceProof =
      .ok ()) :
    Effect state (.processSignReveal sender partialSig complianceProof) { state with
      receivedSignReveals := state.receivedSignReveals ++ [(sender, partialSig, complianceProof)]
      phase := if state.receivedSignReveals.length + 1 ≥ state.t + 1 then .signCombine
        else .signReveal }
  | combined {phase : McpPhase} (params : Ats.NetworkPublicParams) (msg : List UInt8)
    (epoch : UInt64) (aggregatorId : ParticipantId) (hbefore : state.phase = .signReveal)
    (hphase : phase = .signCombine ∨ phase = .verifyZkp) :
    Effect state (.combineSignatures params msg epoch aggregatorId) { state with phase }
  | verified {phase : McpPhase} (params : Ats.NetworkPublicParams) (msg : List UInt8)
    (sig : Ats.AtsSignature) (hbefore : state.phase = .signCombine)
    (hphase : phase = .verifyZkp ∨ phase = .ready) :
    Effect state (.verifyCombinedSignature params msg sig) { state with phase }

variable {state : McpState}

/-- A call that keeps the state when it fails has the effect of its successes. -/
theorem effect_of_keepsOnError {operation : McpOperation}
    (hkeeps : KeepsOnError operation.perform state)
    (hok : ∀ state', operation.perform state = (.ok (), state') →
      Effect state operation state') :
    Effect state operation (state.step operation) := by
  unfold McpState.step
  match hrun : operation.perform state with
  | (.ok _, next) => exact hok next hrun
  | (.error (.panic message), next) => exact Effect.refused (by rw [hrun]; exact nofun)
  | (.error (.err e), next) =>
    have hsame : next = state := by
      have := hkeeps e (by rw [hrun])
      rwa [hrun] at this
    rw [hsame]
    exact Effect.refused (by rw [hrun]; exact nofun)

/-- A call that has its effect also when it fails. -/
theorem effect_of_state {operation : McpOperation}
    (h : Effect state operation (operation.perform state).2) :
    Effect state operation (state.step operation) := by
  unfold McpState.step
  match hrun : operation.perform state with
  | (.ok _, next) =>
    rw [hrun] at h
    exact h
  | (.error (.panic message), next) => exact Effect.refused (by rw [hrun]; exact nofun)
  | (.error (.err e), next) =>
    rw [hrun] at h
    exact h

/-- A call that is refused has no effect. -/
theorem effect_of_refused {α : Type} {operation : McpOperation} {call : McpCall α} {e : McpError}
    (hperform : operation.perform = ignore call)
    (hrefused : call state = (.error (.err e), state)) :
    Effect state operation (call state).2 := by
  rw [hrefused]
  refine Effect.refused fun hok => ?_
  rw [hperform, ignore, hrefused] at hok
  cases hok

omit [Cipher] [Sha3] in
/-- A call that begins with a transition is refused or runs on in the next phase. -/
theorem transitionTo_bind {α : Type} (phase : McpPhase) (rest : Unit → McpCall α)
    (state : McpState) :
    (∃ e, (transitionTo phase >>= rest) state = (.error (.err e), state)) ∨
      state.phase.follows phase = true ∧
        (transitionTo phase >>= rest) state = rest () { state with phase } := by
  by_cases hfollows : state.phase.follows phase = true
  · exact Or.inr ⟨hfollows, bind_run_ok (transitionTo_eq_ok hfollows) rest⟩
  · refine Or.inl ⟨.invalidStateTransition s!"{state.phase}" s!"{phase}", ?_⟩
    refine bind_run_error ?_ rest
    rw [transitionTo_run, if_neg hfollows]
    rfl

omit [Sha3] [Cipher] in
/-- Finishing a key generation fails at once or moves on from the shares. -/
theorem finalizeDkg_moves (state : McpState) :
    (∃ e, finalizeDkg state = (.error (.err e), state)) ∨
      state.phase = .dkgShare ∧ ∃ phase dkgState, (phase = .dkgVerify ∨ phase = .ready) ∧
        (finalizeDkg state).2 = { state with phase, dkgState } := by
  have hbefore : state.phase.follows .dkgVerify = true → state.phase = .dkgShare := by
    cases state.phase <;> decide
  rcases transitionTo_bind .dkgVerify (fun _ => do
    let output ← finalizeInner
    transitionTo .ready
    return output) state with hrefused | ⟨hfollows, hmoved⟩
  · exact Or.inl hrefused
  · obtain ⟨result, dkgState, hinner⟩ : ∃ result dkgState,
        finalizeInner { state with phase := .dkgVerify } =
          (result, { state with phase := .dkgVerify, dkgState }) := by
      unfold finalizeInner
      split
      · exact ⟨_, _, rfl⟩
      · exact ⟨_, _, rfl⟩
    refine Or.inr ⟨hbefore hfollows, ?_⟩
    rw [finalizeDkg, hmoved]
    match result with
    | .error e => exact ⟨.dkgVerify, dkgState, Or.inl rfl, by rw [bind_run_error hinner]⟩
    | .ok output =>
      refine ⟨.ready, dkgState, Or.inr rfl, ?_⟩
      rw [bind_run_ok hinner, bind_run_ok (transitionTo_eq_ok rfl)]
      rfl

omit [Cipher] [Sha3] in
/-- Combining either fails at once or moves on from the reveals. -/
theorem combineSignatures_moves (params : Ats.NetworkPublicParams) (msg : List UInt8)
    (epoch : UInt64) (aggregatorId : ParticipantId) (state : McpState) :
    (∃ e, combineSignatures params msg epoch aggregatorId state = (.error (.err e), state)) ∨
      state.phase = .signReveal ∧ ∃ phase, (phase = .signCombine ∨ phase = .verifyZkp) ∧
        (combineSignatures params msg epoch aggregatorId state).2 = { state with phase } := by
  have hbefore : state.phase.follows .signCombine = true → state.phase = .signReveal := by
    cases state.phase <;> decide
  rcases transitionTo_bind .signCombine (fun _ => do
    let state ← get
    let partials := state.receivedSignReveals.map fun entry => entry.2.1
    let sig ← lift (Outcome.mapErr (fun e => .signatureError s!"aggregation: {e}")
      (Ats.aggregate partials params epoch state.myId))
    transitionTo .verifyZkp
    return sig) state with hrefused | ⟨hfollows, hmoved⟩
  · exact Or.inl hrefused
  · refine Or.inr ⟨hbefore hfollows, ?_⟩
    rw [combineSignatures, hmoved, get_bind]
    match hresult : (Outcome.mapErr (fun e => .signatureError s!"aggregation: {e}")
        (Ats.aggregate (state.receivedSignReveals.map fun entry => entry.2.1) params epoch
          state.myId) : Outcome McpError Ats.AtsSignature) with
    | .error e => exact ⟨.signCombine, Or.inl rfl, by rw [hresult, bind_run_error (lift_run _ _)]⟩
    | .ok sig =>
      refine ⟨.verifyZkp, Or.inr rfl, ?_⟩
      rw [hresult, lift_ok_bind, bind_run_ok (transitionTo_eq_ok rfl)]
      rfl

omit [Cipher] [Sha3] in
/-- Verifying either fails at once or moves on from the combination. -/
theorem verifyCombinedSignature_moves (params : Ats.NetworkPublicParams) (msg : List UInt8)
    (sig : Ats.AtsSignature) (state : McpState) :
    (∃ e, verifyCombinedSignature params msg sig state = (.error (.err e), state)) ∨
      state.phase = .signCombine ∧ ∃ phase, (phase = .verifyZkp ∨ phase = .ready) ∧
        (verifyCombinedSignature params msg sig state).2 = { state with phase } := by
  have hbefore : state.phase.follows .verifyZkp = true → state.phase = .signCombine := by
    cases state.phase <;> decide
  rcases transitionTo_bind .verifyZkp (fun _ => do
    let valid := Ats.verify params msg sig
    if valid then transitionTo .ready else pure ()
    return valid) state with hrefused | ⟨hfollows, hmoved⟩
  · exact Or.inl hrefused
  · refine Or.inr ⟨hbefore hfollows, ?_⟩
    rw [verifyCombinedSignature, hmoved]
    cases Ats.verify params msg sig with
    | false => exact ⟨.verifyZkp, Or.inl rfl, rfl⟩
    | true =>
      refine ⟨.ready, Or.inr rfl, ?_⟩
      rw [if_pos rfl, bind_run_ok (transitionTo_eq_ok rfl)]
      rfl

omit [Cipher] in
/-- An id with which the key generation starts is one of the participants. -/
theorem myId_of_startDkg {pedersen : PedersenSetup} {coins zkpCoins : ℕ → Scalar}
    {commit : DkgCommit} {state' : McpState}
    (hcall : startDkg pedersen coins zkpCoins state = (.ok commit, state')) :
    1 ≤ state.myId.toNat ∧ state.myId.toNat ≤ state.n := by
  obtain ⟨_, dkg, hnew, _⟩ := startDkg_eq_ok_iff.mp hcall
  unfold DkgState.new at hnew
  split at hnew
  · cases hnew
  · split at hnew
    · cases hnew
    · rename_i hvalid
      obtain ⟨hpos, hle⟩ := not_not.mp hvalid
      rw [ge_iff_le, UInt16.le_iff_toNat_le] at hpos
      rw [UInt16.le_iff_toNat_le, UInt16.toNat_ofNat'] at hle
      exact ⟨hpos, hle.trans (Nat.mod_le _ _)⟩

/-- Whether the call is one of the key generation. -/
def McpOperation.generatesKeys : McpOperation → Bool
  | startDkg _ _ _ => true
  | processDkgCommit _ _ _ _ => true
  | distributeDkgShare _ _ _ => true
  | processDkgShare _ _ _ => true
  | finalizeDkg => true
  | _ => false

/-- The effects of the calls of a key generation. -/
theorem step_effect_of_generatesKeys {operation : McpOperation}
    (h : operation.generatesKeys = true) (state : McpState) :
    Effect state operation (state.step operation) := by
  cases operation with
  | startDkg pedersen coins zkpCoins =>
    refine effect_of_keepsOnError (startDkg_keepsOnError _ _ _).ignore fun state' hok => ?_
    obtain ⟨commit, hcall⟩ := ignore_eq_ok_iff.mp hok
    obtain ⟨hphase, dkg, _, _, _, _, _, _, _, _, rfl⟩ := startDkg_eq_ok_iff.mp hcall
    exact Effect.started hphase (myId_of_startDkg hcall) (by rw [hcall])
  | processDkgCommit sender publicKey vssPublic stakeProof =>
    refine effect_of_keepsOnError (processDkgCommit_keepsOnError _ _ _ _) fun state' hok => ?_
    obtain ⟨hphase, hproof, rfl⟩ := processDkgCommit_eq_ok_iff.mp hok
    exact Effect.committed hphase hproof
  | distributeDkgShare recipient coins nonce =>
    refine effect_of_state ?_
    rw [McpOperation.perform, ignore_state, distributeDkgShare_state]
    exact Effect.distributed _ _ _
  | processDkgShare sender encryptedShare complianceProof =>
    refine effect_of_keepsOnError (processDkgShare_keepsOnError _ _ _) fun state' hok => ?_
    obtain ⟨hphase, hproof, _, rfl⟩ := processDkgShare_eq_ok_iff.mp hok
    exact Effect.shared hphase hproof
  | finalizeDkg =>
    refine effect_of_state ?_
    rw [McpOperation.perform, ignore_state]
    rcases finalizeDkg_moves state with
      ⟨e, hrefused⟩ | ⟨hbefore, phase, dkgState, hphase, hmoved⟩
    · exact effect_of_refused rfl hrefused
    · rw [hmoved]
      exact Effect.finalized hbefore hphase
  | _ => cases h

/-- The effects of the calls of a signing round. -/
theorem step_effect_of_signs {operation : McpOperation}
    (h : operation.generatesKeys = false) (state : McpState) :
    Effect state operation (state.step operation) := by
  cases operation with
  | startSigningRound =>
    refine effect_of_keepsOnError startSigningRound_keepsOnError fun state' hok => ?_
    obtain ⟨hphase, rfl⟩ := startSigningRound_eq_ok_iff.mp hok
    exact Effect.roundStarted hphase
  | createSignCommitment msg signer nonce =>
    refine effect_of_state ?_
    rw [McpOperation.perform, ignore_state, createSignCommitment_state]
    exact Effect.madeCommitment _ _ _
  | processSignCommitment sender commitment membershipProof =>
    refine effect_of_keepsOnError (processSignCommitment_keepsOnError _ _ _) fun state' hok => ?_
    obtain ⟨hphase, ⟨params, hparams, hproof⟩, rfl⟩ := processSignCommitment_eq_ok_iff.mp hok
    exact Effect.signCommitted hphase hparams hproof
  | createSignReveal msg signer trackingPk coins nonce =>
    refine effect_of_state ?_
    rw [McpOperation.perform, ignore_state, createSignReveal_state]
    exact Effect.madeReveal _ _ _ _ _
  | processSignReveal sender partialSig complianceProof =>
    refine effect_of_keepsOnError (processSignReveal_keepsOnError _ _ _) fun state' hok => ?_
    obtain ⟨hphase, hproof, rfl⟩ := processSignReveal_eq_ok_iff.mp hok
    exact Effect.revealed hphase hproof
  | combineSignatures params msg epoch aggregatorId =>
    refine effect_of_state ?_
    rw [McpOperation.perform, ignore_state]
    rcases combineSignatures_moves params msg epoch aggregatorId state with
      ⟨e, hrefused⟩ | ⟨hbefore, phase, hphase, hmoved⟩
    · exact effect_of_refused rfl hrefused
    · rw [hmoved]
      exact Effect.combined _ _ _ _ hbefore hphase
  | verifyCombinedSignature params msg sig =>
    refine effect_of_state ?_
    rw [McpOperation.perform, ignore_state]
    rcases verifyCombinedSignature_moves params msg sig state with
      ⟨e, hrefused⟩ | ⟨hbefore, phase, hphase, hmoved⟩
    · exact effect_of_refused rfl hrefused
    · rw [hmoved]
      exact Effect.verified _ _ _ hbefore hphase
  | _ => cases h

/-- **Effects.** Every call has one of the listed effects. -/
theorem step_effect (state : McpState) (operation : McpOperation) :
    Effect state operation (state.step operation) := by
  cases h : operation.generatesKeys with
  | true => exact step_effect_of_generatesKeys h state
  | false => exact step_effect_of_signs h state

end Sigimora.Mcp
