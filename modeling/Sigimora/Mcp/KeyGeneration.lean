import Sigimora.Crypto.DkgRun
import Sigimora.Math.ExponentCurve
import Sigimora.Mcp.Calls

/-!
# Runs of the key generation

Participants start, process each other's commits and then the shares that the
others distributed to them. The last share already moves a participant on to the
verification, so that the call that ends the key generation asks for a
transition from this phase to itself and is refused.
-/

namespace Sigimora.Mcp

open Pedersen

/-- A step of a run: a call of one participant, or the delivery of a message. -/
inductive KeyGenerationEvent
  | start (id : ParticipantId)
  | commit (sender receiver : ParticipantId)
  | distribute (sender receiver : ParticipantId)
  | share (sender receiver : ParticipantId)
  deriving DecidableEq

/-- The starts of all participants, and a commit, a distribution and a share for
each pair of different ones. -/
def keyGenerationEvents (n : ℕ) : List KeyGenerationEvent :=
  (participants n).map .start ++ (exchangePairs n).map (fun pair => .commit pair.1 pair.2) ++
    (exchangePairs n).map (fun pair => .distribute pair.1 pair.2) ++
    (exchangePairs n).map fun pair => .share pair.1 pair.2

/-- The random draws of a run. -/
structure KeyGenerationDraws where
  coins : ParticipantId → ℕ → Scalar
  zkpCoins : ParticipantId → ℕ → Scalar
  shareCoins : ParticipantId → ParticipantId → ShareCoins
  nonces : ParticipantId → ParticipantId → Scalar

variable [Curve]

/-- The participants, with the messages that they have sent. -/
structure KeyGenerationRun where
  parties : ParticipantId → McpState
  commits : ParticipantId → Option DkgCommit
  shares : ParticipantId → ParticipantId → Option (List UInt8 × ComplianceProof)

/-- Nobody has started. -/
def KeyGenerationRun.initial (n t : ℕ) : KeyGenerationRun where
  parties := McpState.new n t
  commits := fun _ => none
  shares := fun _ _ => none

variable [Cipher] [Sha3]

/-- One step, which fails when the call does. -/
def KeyGenerationRun.step (pedersen : PedersenSetup) (draws : KeyGenerationDraws)
    (run : KeyGenerationRun) : KeyGenerationEvent → Outcome McpError KeyGenerationRun
  | .start id => do
    let result := startDkg pedersen (draws.coins id) (draws.zkpCoins id) (run.parties id)
    let commit ← result.1
    return { run with
      parties := Function.update run.parties id result.2
      commits := Function.update run.commits id (some commit) }
  | .commit sender receiver => do
    let commit ← Outcome.unwrap (run.commits sender)
    let result := processDkgCommit sender commit.1 commit.2.1 commit.2.2 (run.parties receiver)
    result.1
    return { run with parties := Function.update run.parties receiver result.2 }
  | .distribute sender receiver => do
    let result := distributeDkgShare receiver (draws.shareCoins sender receiver)
      (draws.nonces sender receiver) (run.parties sender)
    let message ← result.1
    return { run with
      parties := Function.update run.parties sender result.2
      shares := Function.update run.shares sender
        (Function.update (run.shares sender) message.1 (some message.2)) }
  | .share sender receiver => do
    let share ← Outcome.unwrap (run.shares sender receiver)
    let result := processDkgShare sender share.1 share.2 (run.parties receiver)
    result.1
    return { run with parties := Function.update run.parties receiver result.2 }

/-- A run in which every call returns. -/
def KeyGenerationRun.steps (pedersen : PedersenSetup) (draws : KeyGenerationDraws)
    (run : KeyGenerationRun) (events : List KeyGenerationEvent) :
    Outcome McpError KeyGenerationRun :=
  events.foldlM (KeyGenerationRun.step pedersen draws) run

omit [Curve] [Cipher] [Sha3] in
/-- The sender of a share to the receiver. -/
def KeyGenerationEvent.shareTo (receiver : ParticipantId) :
    KeyGenerationEvent → Option ParticipantId
  | .share sender target => if target = receiver then some sender else none
  | _ => none

/-- What a participant has come to when it has processed `received` shares. -/
structure Progress (n received : ℕ) (state : McpState) : Prop where
  size : state.n = n
  shares : state.receivedShares.length = received
  phase : state.phase = .dkgVerify ∨
    received < n - 1 ∧
      (state.phase = .idle ∨ state.phase = .dkgCommit ∨ state.phase = .dkgShare)

section Progress

variable {n received : ℕ} {state state' : McpState}

omit [Cipher] [Sha3] in
/-- A call that leaves the shares alone and does not get past the distribution. -/
theorem Progress.keep (h : Progress n received state) (hbefore : state.phase ≠ .dkgVerify)
    (hsize : state'.n = state.n) (hshares : state'.receivedShares = state.receivedShares)
    (hphase : state'.phase = .dkgCommit ∨ state'.phase = .dkgShare) :
    Progress n received state' := by
  refine ⟨hsize.trans h.size, ?_, Or.inr ⟨?_, Or.inr hphase⟩⟩
  · rw [hshares]
    exact h.shares
  · rcases h.phase with hverify | hearly
    · exact absurd hverify hbefore
    · exact hearly.1

omit [Cipher] in
/-- The start of a key generation is progress. -/
theorem Progress.startDkg (h : Progress n received state) {pedersen : PedersenSetup}
    {coins zkpCoins : ℕ → Scalar} {commit : DkgCommit}
    (hcall : startDkg pedersen coins zkpCoins state = (.ok commit, state')) :
    Progress n received state' := by
  obtain ⟨hidle, _, _, _, _, _, _, _, _, _, rfl⟩ := startDkg_eq_ok_iff.mp hcall
  refine h.keep ?_ rfl rfl (Or.inl rfl)
  rw [hidle]
  decide

omit [Cipher] in
/-- So is a commitment. -/
theorem Progress.processDkgCommit (h : Progress n received state) {sender : ParticipantId}
    {publicKey : G2Point} {vssPublic : VssPublic} {stakeProof : StakeProof}
    (hcall : processDkgCommit sender publicKey vssPublic stakeProof state = (.ok (), state')) :
    Progress n received state' := by
  obtain ⟨hcommit, _, rfl⟩ := processDkgCommit_eq_ok_iff.mp hcall
  refine h.keep ?_ rfl rfl ?_
  · rw [hcommit]
    decide
  · simp only
    split
    · exact Or.inr rfl
    · exact Or.inl rfl

omit [Cipher] [Sha3] in
/-- The last of the other participants' shares moves on to the verification. -/
theorem Progress.processDkgShare (h : Progress n received state) {sender : ParticipantId}
    {encryptedShare : List UInt8} {complianceProof : ComplianceProof}
    (hcall : processDkgShare sender encryptedShare complianceProof state = (.ok (), state')) :
    Progress n (received + 1) state' := by
  obtain ⟨_, _, _, rfl⟩ := processDkgShare_eq_ok_iff.mp hcall
  refine ⟨h.size, ?_, ?_⟩
  · rw [List.length_append, List.length_singleton, h.shares]
  · simp only
    rw [h.size, h.shares]
    split
    · exact Or.inl rfl
    · rename_i hfew
      exact Or.inr ⟨not_le.mp hfew, Or.inr (Or.inr rfl)⟩

omit [Cipher] [Sha3] in
/-- After the state of one participant was replaced. -/
theorem progress_update {parties : ParticipantId → McpState} {id j : ParticipantId}
    (hself : j = id → Progress n received state)
    (hother : j ≠ id → Progress n received (parties j)) :
    Progress n received (Function.update parties id state j) := by
  by_cases hj : j = id
  · subst hj
    rw [Function.update_self]
    exact hself rfl
  · rw [Function.update_of_ne hj]
    exact hother hj

end Progress

variable {n : ℕ} {pedersen : PedersenSetup} {draws : KeyGenerationDraws}
  {run run' : KeyGenerationRun} {j : ParticipantId}

/-- A step counts a share of the participant that it is delivered to. -/
theorem Progress.step {received : ℕ} (h : Progress n received (run.parties j))
    {event : KeyGenerationEvent} (hstep : run.step pedersen draws event = .ok run') :
    Progress n (received + (event.shareTo j).toList.length) (run'.parties j) := by
  cases event with
  | start id =>
    obtain ⟨commit, hcommit, hrun⟩ := Outcome.bind_eq_ok.mp hstep
    cases hrun
    refine progress_update ?_ fun _ => h
    rintro rfl
    exact h.startDkg (Prod.ext hcommit rfl)
  | commit sender receiver =>
    obtain ⟨commit, _, hrest⟩ := Outcome.bind_eq_ok.mp hstep
    obtain ⟨_, hcall, hrun⟩ := Outcome.bind_eq_ok.mp hrest
    cases hrun
    refine progress_update ?_ fun _ => h
    rintro rfl
    exact h.processDkgCommit (Prod.ext hcall rfl)
  | distribute sender receiver =>
    obtain ⟨message, _, hrun⟩ := Outcome.bind_eq_ok.mp hstep
    cases hrun
    refine progress_update ?_ fun _ => h
    rintro rfl
    rw [distributeDkgShare_state]
    exact h
  | share sender receiver =>
    obtain ⟨share, _, hrest⟩ := Outcome.bind_eq_ok.mp hstep
    obtain ⟨_, hcall, hrun⟩ := Outcome.bind_eq_ok.mp hrest
    cases hrun
    refine progress_update ?_ fun hj => ?_
    · rintro rfl
      rw [KeyGenerationEvent.shareTo, if_pos rfl]
      exact h.processDkgShare (Prod.ext hcall rfl)
    · rw [KeyGenerationEvent.shareTo, if_neg (Ne.symm hj)]
      exact h

/-- A run counts the shares of each participant. -/
theorem Progress.steps {received : ℕ} (h : Progress n received (run.parties j))
    {events : List KeyGenerationEvent} (hsteps : run.steps pedersen draws events = .ok run') :
    Progress n (received + (events.filterMap (KeyGenerationEvent.shareTo j)).length)
      (run'.parties j) := by
  induction events generalizing run received with
  | nil =>
    cases hsteps
    exact h
  | cons event events ih =>
    obtain ⟨next, hstep, hrest⟩ := Outcome.bind_eq_ok.mp hsteps
    have hall := ih (h.step hstep) hrest
    rw [List.filterMap_cons]
    cases hshare : event.shareTo j with
    | none =>
      rw [hshare] at hall
      exact hall
    | some sender =>
      rw [hshare] at hall
      rw [List.length_cons, Nat.add_comm _ 1, ← Nat.add_assoc]
      exact hall

omit [Curve] [Cipher] [Sha3] in
/-- In a complete run each participant hears one share from every other one. -/
theorem length_shareTo (hn : n ≤ 65535) {events : List KeyGenerationEvent}
    (hevents : events.Perm (keyGenerationEvents n)) (hj : j ∈ participants n) :
    (events.filterMap (KeyGenerationEvent.shareTo j)).length = n - 1 := by
  have hsenders : (events.filterMap (KeyGenerationEvent.shareTo j)).Perm
      ((participants n).erase j) := by
    apply (hevents.filterMap _).trans
    simpa [keyGenerationEvents, List.filterMap_append, List.filterMap_map, Function.comp_def,
      KeyGenerationEvent.shareTo] using perm_senders hj
  rw [hsenders.length_eq, List.length_erase_of_mem hj, length_participants hn]

/-- After a complete run a participant has moved on to the verification. -/
theorem phase_steps (hn : 2 ≤ n) (hmax : n ≤ 65535) {t : ℕ} {events : List KeyGenerationEvent}
    (hevents : events.Perm (keyGenerationEvents n))
    (hrun : (KeyGenerationRun.initial n t).steps pedersen draws events = .ok run)
    (hj : j ∈ participants n) : (run.parties j).phase = .dkgVerify := by
  have hinitial : Progress n 0 ((KeyGenerationRun.initial n t).parties j) :=
    ⟨rfl, rfl, Or.inr ⟨by omega, Or.inl rfl⟩⟩
  have hfinal := hinitial.steps hrun
  rw [length_shareTo hmax hevents hj, Nat.zero_add] at hfinal
  rcases hfinal.phase with hverify | hearly
  · exact hverify
  · exact absurd hearly.1 (lt_irrefl _)

omit [Cipher] [Sha3] in
/-- The verification is no phase to end the key generation from. -/
theorem finalizeDkg_of_dkgVerify {state : McpState} (hphase : state.phase = .dkgVerify) :
    finalizeDkg state =
      (Outcome.fail (.invalidStateTransition "DKG: Verification" "DKG: Verification"), state) := by
  have hrefused : transitionTo .dkgVerify state =
      (Outcome.fail (.invalidStateTransition "DKG: Verification" "DKG: Verification"), state) := by
    rw [transitionTo_run, hphase]
    rfl
  exact Stateful.bind_run_error hrefused _

/-- **The end of the key generation.** When all commits and shares have been
processed, the call that ends the key generation fails at every participant. -/
theorem finalizeDkg_fails (hn : 2 ≤ n) (hmax : n ≤ 65535) {t : ℕ}
    {events : List KeyGenerationEvent} (hevents : events.Perm (keyGenerationEvents n))
    (hrun : (KeyGenerationRun.initial n t).steps pedersen draws events = .ok run)
    (hj : j ∈ participants n) :
    finalizeDkg (run.parties j) =
      (Outcome.fail (.invalidStateTransition "DKG: Verification" "DKG: Verification"),
        run.parties j) :=
  finalizeDkg_of_dkgVerify (phase_steps hn hmax hevents hrun hj)

/-- The draws of a small run. -/
def smallDraws : KeyGenerationDraws where
  coins := fun id k => Scalar.ofId id + k
  zkpCoins := fun _ _ => 1
  shareCoins := fun _ _ => ⟨1, 0⟩
  nonces := fun _ _ => 1

omit [Curve] [Cipher] [Sha3] in
/-- Two participants process all messages of each other. -/
theorem exists_small_run :
    letI := exponentCurve
    letI := plainCipher
    letI := truncatingSha3
    ∃ run, (KeyGenerationRun.initial 2 1).steps PedersenSetup.deterministic smallDraws
      (keyGenerationEvents 2) = .ok run := by
  exact Outcome.exists_ok_of_isSome (by decide +kernel)

omit [Curve] [Cipher] [Sha3] in
/-- Both participants are refused. -/
theorem finalizeDkg_fails_small :
    letI := exponentCurve
    letI := plainCipher
    letI := truncatingSha3
    ∃ run, (KeyGenerationRun.initial 2 1).steps PedersenSetup.deterministic smallDraws
        (keyGenerationEvents 2) = .ok run ∧
      ∀ j ∈ participants 2, finalizeDkg (run.parties j) =
        (Outcome.fail (.invalidStateTransition "DKG: Verification" "DKG: Verification"),
          run.parties j) := by
  let := exponentCurve
  let := plainCipher
  let := truncatingSha3
  obtain ⟨run, hrun⟩ := exists_small_run
  exact ⟨run, hrun, fun j hj =>
    finalizeDkg_fails le_rfl (by norm_num) (List.Perm.refl _) hrun hj⟩

omit [Curve] [Cipher] [Sha3] in
/-- An honest key generation does not become ready. -/
theorem key_generation_not_ready :
    letI := exponentCurve
    letI := plainCipher
    letI := truncatingSha3
    ¬ ∀ (n t : ℕ) (pedersen : PedersenSetup) (draws : KeyGenerationDraws)
      (events : List KeyGenerationEvent) (run : KeyGenerationRun), 2 ≤ n → n ≤ 65535 → 1 ≤ t →
      t ≤ n → events.Perm (keyGenerationEvents n) →
      (KeyGenerationRun.initial n t).steps pedersen draws events = .ok run →
      ∃ outputs : ParticipantId → DkgOutput, ∀ j ∈ participants n,
        (finalizeDkg (run.parties j)).1 = .ok (outputs j) ∧
        (finalizeDkg (run.parties j)).2.phase = .ready ∧
        ∀ i ∈ participants n, (outputs i).collectivePk = (outputs j).collectivePk := by
  let := exponentCurve
  let := plainCipher
  let := truncatingSha3
  intro h
  obtain ⟨run, hrun⟩ := exists_small_run
  have hone : (1 : ParticipantId) ∈ participants 2 := by decide
  obtain ⟨outputs, houtputs⟩ := h 2 1 PedersenSetup.deterministic smallDraws _ run le_rfl
    (by norm_num) le_rfl one_le_two (List.Perm.refl _) hrun
  obtain ⟨hok, _⟩ := houtputs 1 hone
  rw [finalizeDkg_of_dkgVerify
    (phase_steps le_rfl (by norm_num) (List.Perm.refl _) hrun hone)] at hok
  cases hok

end Sigimora.Mcp
