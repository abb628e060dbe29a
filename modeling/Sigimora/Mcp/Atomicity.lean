import Sigimora.Ats.Signing
import Sigimora.Crypto.DkgFinalize
import Sigimora.Mcp.Operations

/-!
# Failing calls

Most calls check everything before they change anything. The call that ends the key
generation and the one that combines the partial signatures move on to the next phase
first, and their work may still fail after that.
-/

namespace Sigimora.Mcp

open Pedersen

variable [Curve]

/-- What the calls record. -/
structure McpState.SameRecords (state state' : McpState) : Prop where
  phase : state'.phase = state.phase
  receivedCommits : state'.receivedCommits = state.receivedCommits
  receivedShares : state'.receivedShares = state.receivedShares
  receivedSignCommits : state'.receivedSignCommits = state.receivedSignCommits
  receivedSignReveals : state'.receivedSignReveals = state.receivedSignReveals
  dkgState : state'.dkgState = state.dkgState

/-- When the call returns an error, the records are those from before. -/
def AtomicOnError [Cipher] [Sha3] (state : McpState) (operation : McpOperation) : Prop :=
  ∀ e, (operation.perform state).1 = .error (.err e) →
    state.SameRecords (operation.perform state).2

/-- The call moves on to the next phase and its work fails after that. -/
def FailsMidway (state : McpState) : McpOperation → Prop
  | .finalizeDkg => state.phase = .dkgShare ∧
      ∀ dkg, state.dkgState = some dkg → dkg.buildQualSet.Refuses
  | .combineSignatures params _ _ _ => state.phase = .signReveal ∧
      state.receivedSignReveals.length < params.threshold
  | _ => False

variable {state : McpState}

/-! ## Calls that check first -/

open Stateful

/-- A transition that is refused leaves the server as it was. -/
theorem transitionTo_keepsOnError (phase : McpPhase) (state : McpState) :
    KeepsOnError (transitionTo phase) state := by
  intro e he
  rw [transitionTo_run] at he ⊢
  split
  · rename_i hfollows
    rw [if_pos hfollows] at he
    cases he
  · rfl

/-- A transition that is allowed is not refused. -/
theorem transitionTo_neverErrs {phase : McpPhase} (h : state.phase.follows phase = true) :
    NeverErrs (transitionTo phase) state := by
  intro e he
  rw [transitionTo_eq_ok h] at he
  cases he

/-- Neither is one that is taken only once there is enough. -/
theorem advance_neverErrs {enough : Prop} [Decidable enough] {phase : McpPhase}
    (h : state.phase.follows phase = true) :
    NeverErrs (if enough then transitionTo phase else pure ()) state := by
  split
  · exact transitionTo_neverErrs h
  · exact neverErrs_pure () state

/-- A handler that stores a message and moves on once there are enough of them. -/
theorem storeAndAdvance_keepsOnError {store : McpState → McpState} {enough : McpState → Prop}
    [DecidablePred enough] {phase : McpPhase} (h : (store state).phase.follows phase = true) :
    KeepsOnError (do
      Stateful.modify store
      let stored ← Stateful.get
      if enough stored then transitionTo phase else pure ()) state := by
  refine NeverErrs.keepsOnError ?_
  rw [neverErrs_modify_bind, neverErrs_get_bind]
  exact advance_neverErrs h

/-- A handler that is called in another phase changes nothing. -/
theorem inPhase_keepsOnError {α : Type} {phase : McpPhase} {e : McpError} {body : McpCall α}
    (h : state.phase = phase → KeepsOnError body state) :
    KeepsOnError (if state.phase ≠ phase then Stateful.fail e else body) state := by
  split
  · exact KeepsOnError.lift _ state
  · rename_i hphase
    exact h (not_not.mp hphase)

section Checked

variable [Sha3]

/-- Once it is in its phase, the start of the key generation may only panic. -/
theorem startDkg_keepsOnError (pedersen : PedersenSetup) (coins zkpCoins : ℕ → Scalar) :
    KeepsOnError (startDkg pedersen coins zkpCoins) state := by
  refine (transitionTo_keepsOnError _ state).bind fun _ started _ => ?_
  rw [neverErrs_get_bind]
  refine NeverErrs.lift_bind ?_ fun dkg _ => ?_
  · intro e
    unfold DkgState.new
    split
    · exact fun h => by cases h
    · split
      · exact fun h => by cases h
      · exact fun h => by cases h
  · intro e he
    cases he

/-- A commitment that is refused leaves the server as it was. -/
theorem processDkgCommit_keepsOnError (sender : ParticipantId) (publicKey : G2Point)
    (vssPublic : VssPublic) (stakeProof : StakeProof) :
    KeepsOnError (processDkgCommit sender publicKey vssPublic stakeProof) state := by
  unfold processDkgCommit
  rw [keepsOnError_get_bind]
  refine inPhase_keepsOnError fun hphase => KeepsOnError.lift_bind fun _ _ => ?_
  exact storeAndAdvance_keepsOnError (by rw [hphase]; rfl)

/-- So does a commitment of a signing round. -/
theorem processSignCommitment_keepsOnError (sender : ParticipantId) (commitment : G1Point)
    (membershipProof : MembershipProof) :
    KeepsOnError (processSignCommitment sender commitment membershipProof) state := by
  unfold processSignCommitment
  rw [keepsOnError_get_bind]
  refine inPhase_keepsOnError fun hphase => KeepsOnError.lift_bind fun _ _ => ?_
  refine KeepsOnError.lift_bind fun _ _ => ?_
  exact storeAndAdvance_keepsOnError (by rw [hphase]; rfl)

end Checked

/-- So does a share. -/
theorem processDkgShare_keepsOnError (sender : ParticipantId) (encryptedShare : List UInt8)
    (complianceProof : ComplianceProof) :
    KeepsOnError (processDkgShare sender encryptedShare complianceProof) state := by
  unfold processDkgShare
  rw [keepsOnError_get_bind]
  refine inPhase_keepsOnError fun hphase => KeepsOnError.lift_bind fun _ _ => ?_
  refine NeverErrs.keepsOnError ?_
  rw [neverErrs_modify_bind, neverErrs_get_bind]
  refine NeverErrs.lift_bind ?_ fun _ _ => advance_neverErrs (by rw [hphase]; rfl)
  intro e
  unfold Outcome.sub
  split
  · exact fun h => by cases h
  · exact fun h => by cases h

/-- So does a reveal. -/
theorem processSignReveal_keepsOnError (sender : ParticipantId)
    (partialSig : Ats.PartialSignature) (complianceProof : ComplianceProof) :
    KeepsOnError (processSignReveal sender partialSig complianceProof) state := by
  unfold processSignReveal
  rw [keepsOnError_get_bind]
  refine inPhase_keepsOnError fun hphase => KeepsOnError.lift_bind fun _ _ => ?_
  exact storeAndAdvance_keepsOnError (by rw [hphase]; rfl)

/-- A round that does not start leaves the server as it was. -/
theorem startSigningRound_keepsOnError : KeepsOnError startSigningRound state := by
  refine (transitionTo_keepsOnError _ state).bind fun _ started _ => ?_
  intro e he
  cases he

/-- Verifying leaves the server as it was if it fails. -/
theorem verifyCombinedSignature_keepsOnError (params : Ats.NetworkPublicParams)
    (msg : List UInt8) (sig : Ats.AtsSignature) :
    KeepsOnError (verifyCombinedSignature params msg sig) state := by
  refine (transitionTo_keepsOnError _ state).bind fun _ moved hmoved => ?_
  obtain ⟨_, rfl⟩ := transitionTo_eq_ok_iff.mp hmoved
  intro e he
  simp only at he
  split at he
  · rw [Stateful.bind_run_ok (transitionTo_eq_ok rfl)] at he
    cases he
  · cases he

/-! ## Calls that move on first -/

omit [Curve] in
/-- No phase follows itself. -/
theorem McpPhase.not_follows_self (phase : McpPhase) : phase.follows phase = false := by
  cases phase <;> rfl

/-- A call that moves on, works and moves on again is atomic unless its work fails. -/
theorem moveFirst_atomic_iff {α : Type} {phase next : McpPhase} (call work : McpCall α)
    (hnext : phase.follows next = true) (hwork : ∀ s, (work s).2.phase = s.phase)
    (hcall : call = do
      transitionTo phase
      let a ← work
      transitionTo next
      return a) :
    (∀ e, (call state).1 = .error (.err e) → state.SameRecords (call state).2) ↔
      ¬ (state.phase.follows phase = true ∧
        ∃ e, (work { state with phase }).1 = .error (.err e)) := by
  by_cases hfollows : state.phase.follows phase = true
  swap
  · have hrefused : transitionTo phase state = (.error (.err (.invalidStateTransition
        s!"{state.phase}" s!"{phase}")), state) := by
      rw [transitionTo_run, if_neg hfollows]
      rfl
    refine iff_of_true (fun e _ => ?_) fun hmidway => hfollows hmidway.1
    rw [hcall, Stateful.bind_run_error hrefused]
    exact ⟨rfl, rfl, rfl, rfl, rfl, rfl⟩
  have hmoved : call state = (work >>= fun a => transitionTo next >>= fun _ => pure a)
      { state with phase } := by
    rw [hcall]
    exact Stateful.bind_run_ok (transitionTo_eq_ok hfollows) _
  have hphase := hwork { state with phase }
  rw [hmoved, and_iff_right hfollows]
  match hrun : work { state with phase } with
  | (.error fault, worked) =>
    rw [Stateful.bind_run_error hrun]
    rw [hrun] at hphase
    constructor
    · rintro hatomic ⟨e, he⟩
      have hkept : worked.phase = state.phase := (hatomic e (by rw [← he])).phase
      have hself : phase.follows phase = true := by
        rw [← hkept, hphase] at hfollows
        exact hfollows
      rw [McpPhase.not_follows_self] at hself
      cases hself
    · intro hnot e he
      exact absurd ⟨e, he⟩ hnot
  | (.ok a, worked) =>
    rw [hrun] at hphase
    have hlast : worked.phase.follows next = true := by rw [hphase]; exact hnext
    rw [Stateful.bind_run_ok hrun, Stateful.bind_run_ok (transitionTo_eq_ok hlast)]
    refine iff_of_true (fun e he => by cases he) ?_
    rintro ⟨e, he⟩
    cases he

/-- The end of the key generation fails midway when the inner state refuses. -/
theorem finalizeDkg_atomic_iff :
    (∀ e, (finalizeDkg state).1 = .error (.err e) → state.SameRecords (finalizeDkg state).2) ↔
      ¬ FailsMidway state .finalizeDkg := by
  have hphase : state.phase.follows .dkgVerify = true ↔ state.phase = .dkgShare := by
    cases state.phase <;> decide
  have hwork (s : McpState) : (finalizeInner s).2.phase = s.phase := by
    unfold finalizeInner
    split
    · rfl
    · rfl
  have herr : (∃ e, (finalizeInner { state with phase := .dkgVerify }).1 = .error (.err e)) ↔
      ∀ dkg, state.dkgState = some dkg → dkg.buildQualSet.Refuses := by
    unfold finalizeInner
    simp only
    cases state.dkgState with
    | none => simp [Outcome.fail]
    | some dkg =>
      simp only [Option.some.injEq, forall_eq', ← DkgState.exists_finalize_eq_err_iff]
      exact Outcome.exists_mapErr_eq_err_iff
  rw [moveFirst_atomic_iff finalizeDkg finalizeInner rfl hwork rfl, hphase, herr]
  rfl

/-- Combining fails midway when there are too few partial signatures. -/
theorem combineSignatures_atomic_iff (params : Ats.NetworkPublicParams) (msg : List UInt8)
    (epoch : UInt64) (aggregatorId : ParticipantId) :
    (∀ e, (combineSignatures params msg epoch aggregatorId state).1 = .error (.err e) →
        state.SameRecords (combineSignatures params msg epoch aggregatorId state).2) ↔
      ¬ FailsMidway state (.combineSignatures params msg epoch aggregatorId) := by
  have hphase : state.phase.follows .signCombine = true ↔ state.phase = .signReveal := by
    cases state.phase <;> decide
  let work : McpCall Ats.AtsSignature := fun s =>
    (Outcome.mapErr (fun e => .signatureError s!"aggregation: {e}")
      (Ats.aggregate (s.receivedSignReveals.map fun entry => entry.2.1) params epoch s.myId), s)
  have herr : (∃ e, (work { state with phase := .signCombine }).1 = .error (.err e)) ↔
      state.receivedSignReveals.length < params.threshold := by
    rw [Outcome.exists_mapErr_eq_err_iff, Ats.exists_aggregate_eq_err_iff, List.length_map]
  rw [moveFirst_atomic_iff (combineSignatures params msg epoch aggregatorId) work rfl
    (fun _ => rfl) rfl, hphase, herr]
  rfl

/-! ## All calls -/

section Operations

variable [Cipher] [Sha3]

omit [Cipher] [Sha3] in
/-- The same state has the same records. -/
theorem sameRecords_of_eq {state' : McpState} (h : state' = state) :
    state.SameRecords state' := by
  rw [h]
  exact ⟨rfl, rfl, rfl, rfl, rfl, rfl⟩

omit [Cipher] [Sha3] in
/-- A call that keeps the state when it fails, its value thrown away. -/
theorem sameRecords_of_ignore {α : Type} {call : McpCall α} (h : KeepsOnError call state)
    (e : McpError) (he : (ignore call state).1 = .error (.err e)) :
    state.SameRecords (ignore call state).2 :=
  sameRecords_of_eq (h e (ignore_eq_error_iff.mp he))

/-- A call is atomic exactly when it does not fail midway. -/
theorem atomicOnError_iff (state : McpState) (operation : McpOperation) :
    AtomicOnError state operation ↔ ¬ FailsMidway state operation := by
  cases operation with
  | finalizeDkg =>
    rw [← finalizeDkg_atomic_iff]
    refine forall_congr' fun e => ?_
    rw [McpOperation.perform, ignore_eq_error_iff, ignore_state]
  | combineSignatures params msg epoch aggregatorId =>
    rw [← combineSignatures_atomic_iff]
    refine forall_congr' fun e => ?_
    rw [McpOperation.perform, ignore_eq_error_iff, ignore_state]
  | startDkg pedersen coins zkpCoins =>
    exact iff_of_true (sameRecords_of_ignore (startDkg_keepsOnError _ _ _)) not_false
  | processDkgCommit sender publicKey vssPublic stakeProof =>
    exact iff_of_true
      (fun e he => sameRecords_of_eq (processDkgCommit_keepsOnError _ _ _ _ e he)) not_false
  | distributeDkgShare recipient coins nonce =>
    exact iff_of_true
      (sameRecords_of_ignore fun _ _ => distributeDkgShare_state _ _ _ state) not_false
  | processDkgShare sender encryptedShare complianceProof =>
    exact iff_of_true
      (fun e he => sameRecords_of_eq (processDkgShare_keepsOnError _ _ _ e he)) not_false
  | startSigningRound =>
    exact iff_of_true
      (fun e he => sameRecords_of_eq (startSigningRound_keepsOnError e he)) not_false
  | createSignCommitment msg signer nonce =>
    exact iff_of_true
      (sameRecords_of_ignore fun _ _ => createSignCommitment_state _ _ _ state) not_false
  | processSignCommitment sender commitment membershipProof =>
    exact iff_of_true
      (fun e he => sameRecords_of_eq (processSignCommitment_keepsOnError _ _ _ e he)) not_false
  | createSignReveal msg signer trackingPk coins nonce =>
    exact iff_of_true
      (sameRecords_of_ignore fun _ _ => createSignReveal_state _ _ _ _ _ state) not_false
  | processSignReveal sender partialSig complianceProof =>
    exact iff_of_true
      (fun e he => sameRecords_of_eq (processSignReveal_keepsOnError _ _ _ e he)) not_false
  | verifyCombinedSignature params msg sig =>
    exact iff_of_true
      (sameRecords_of_ignore (verifyCombinedSignature_keepsOnError _ _ _)) not_false

/-- **Failing calls.** In every run, all calls are atomic exactly when none of them
fails midway. -/
theorem run_atomicOnError_iff (n t : ℕ) (myId : ParticipantId)
    (networkParams : Option Ats.NetworkPublicParams) (operations : List McpOperation) :
    Run.Guarded McpState.step AtomicOnError (McpState.configured n t myId networkParams)
        operations ↔
      Run.Guarded McpState.step (fun state operation => ¬ FailsMidway state operation)
        (McpState.configured n t myId networkParams) operations :=
  Run.guarded_congr atomicOnError_iff

omit [Curve] [Cipher] [Sha3] in
/-- A participant that ends the key generation too early is left in the verification. -/
theorem finalizeDkg_not_atomic :
    letI := exponentCurve
    letI := plainCipher
    letI := truncatingSha3
    ¬ ∀ (n t : ℕ) (myId : ParticipantId) (networkParams : Option Ats.NetworkPublicParams)
      (operations : List McpOperation),
      Run.Guarded McpState.step AtomicOnError (McpState.configured n t myId networkParams)
        operations := by
  let := exponentCurve
  let := plainCipher
  let := truncatingSha3
  intro h
  -- The proof of the other participant is about the secret zero.
  let before : List McpOperation :=
    [.startDkg PedersenSetup.deterministic (fun _ => 5) fun _ => 1,
      .processDkgCommit 2 0 ⟨[]⟩ ⟨G2Point.generator, 1⟩]
  let state := Run.after McpState.step (McpState.configured 2 1 1 none) before
  have hfew : ∀ dkg ∈ state.dkgState,
      (dkg.buildQualSet.receivedShares.filter fun entry =>
        entry.1 ∈ dkg.buildQualSet.qualSet).length < dkg.buildQualSet.qualSet.length - 1 := by
    decide +kernel
  have hmidway : FailsMidway state .finalizeDkg :=
    ⟨by decide +kernel, fun dkg hdkg => Or.inr (Or.inl (hfew dkg hdkg))⟩
  have hatomic := h 2 1 1 none (before ++ [.finalizeDkg]) before .finalizeDkg (List.prefix_refl _)
  exact (atomicOnError_iff state .finalizeDkg).mp hatomic hmidway

end Operations

end Sigimora.Mcp
