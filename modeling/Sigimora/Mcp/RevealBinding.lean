import Sigimora.Mcp.Effects

/-!
# What binds a partial signature

A partial signature is recorded under its sender whatever it is: the check looks at
nothing but the point of the placeholder proof. The commitment that was recorded before
is hashed under another tag than the message, so not even an honest signer reveals the
point that it has committed to.
-/

namespace Sigimora.Mcp

open Pedersen

variable [Curve]

/-- A participant, with the message that the present round is about. -/
structure RoundRun where
  state : McpState
  message : List UInt8

/-- A call, with the message that is meant if the call begins a round. -/
abbrev RoundEvent := McpOperation × List UInt8

/-- A recorded partial signature. -/
abbrev RecordedReveal := ParticipantId × Ats.PartialSignature × ComplianceProof

namespace RoundRun

/-- Before the first call. -/
def initial (n t : ℕ) (myId : ParticipantId) (networkParams : Option Ats.NetworkPublicParams) :
    RoundRun where
  state := McpState.configured n t myId networkParams
  message := []

/-- The partial signature names its sender, is the point that the sender has committed
to, and verifies for the message under the sender's key. -/
structure Bound (run : RoundRun) (reveal : RecordedReveal) : Prop where
  nodeId : reveal.2.1.nodeId = reveal.1
  committed : ∃ membershipProof,
    run.state.receivedSignCommits.lookup reveal.1 = some (reveal.2.1.sigma, membershipProof)
  verifies : ∃ params entry, run.state.networkParams = some params ∧
    (params.memberPks.find? fun entry => entry.1 == reveal.1) = some entry ∧
    ctVerifyBlsSignature reveal.2.1.sigma (Ats.hashMessage run.message) entry.2 = true

/-- All recorded partial signatures are bound. -/
def RevealsBound (run : RoundRun) : Prop :=
  ∀ reveal ∈ run.state.receivedSignReveals, run.Bound reveal

/-- While commitments arrive, no partial signature is recorded. -/
def CommitsFirst (run : RoundRun) : Prop :=
  run.state.phase = .signCommit → run.state.receivedSignReveals = []

/-- A partial signature that is accepted is bound. -/
def BoundMessage (run : RoundRun) (event : RoundEvent) : Prop :=
  match event.1 with
  | .processSignReveal sender partialSig complianceProof =>
    run.state.phase = .signReveal → complianceProof.evalProof ≠ 0 →
      run.Bound (sender, partialSig, complianceProof)
  | _ => True

/-- The message after a call. -/
def messageAfter (run : RoundRun) (event : RoundEvent) : List UInt8 :=
  match event.1 with
  | .startSigningRound => if run.state.phase = .ready then event.2 else run.message
  | _ => run.message

/-- Make one call. -/
def step [Cipher] [Sha3] (run : RoundRun) (event : RoundEvent) : RoundRun where
  state := run.state.step event.1
  message := run.messageAfter event

variable {run : RoundRun} {next : McpState} {event : RoundEvent}

/-- What a partial signature is bound to does not change in a round. -/
theorem Bound.frame {reveal : RecordedReveal} (h : run.Bound reveal)
    (hcommits : next.receivedSignCommits = run.state.receivedSignCommits)
    (hparams : next.networkParams = run.state.networkParams) :
    Bound ⟨next, run.message⟩ reveal := by
  refine ⟨h.nodeId, ?_, ?_⟩
  · rw [hcommits]
    exact h.committed
  · rw [hparams]
    exact h.verifies

/-- Whether the reveals are bound depends on the messages of the round and on the parameters only.
-/
theorem RevealsBound.frame (h : run.RevealsBound)
    (hcommits : next.receivedSignCommits = run.state.receivedSignCommits)
    (hparams : next.networkParams = run.state.networkParams)
    (hreveals : next.receivedSignReveals = run.state.receivedSignReveals) :
    RevealsBound ⟨next, run.message⟩ := by
  intro reveal hmem
  rw [hreveals] at hmem
  exact (h reveal hmem).frame hcommits hparams

/-- The placeholder accepts everything but the identity. -/
theorem verifyComplianceProof_eq_ok_iff {sender : ParticipantId} {share : List UInt8}
    {proof : ComplianceProof} :
    ZkpEngine.verifyComplianceProof sender share proof = .ok () ↔ proof.evalProof ≠ 0 := by
  unfold ZkpEngine.verifyComplianceProof
  split
  · rename_i hidentity
    exact iff_of_false nofun (not_not.mpr hidentity)
  · rename_i hpoint
    exact iff_of_true rfl hpoint

/-- Recording a partial signature takes the phase and a point that is not the identity. -/
theorem processSignReveal_ok_iff {sender : ParticipantId} {partialSig : Ats.PartialSignature}
    {complianceProof : ComplianceProof} {state : McpState} :
    (processSignReveal sender partialSig complianceProof state).1 = .ok () ↔
      state.phase = .signReveal ∧ complianceProof.evalProof ≠ 0 := by
  have hproof : ZkpEngine.verifyComplianceProof sender partialSig.sigma.toBytes complianceProof =
      .ok () ↔ complianceProof.evalProof ≠ 0 := verifyComplianceProof_eq_ok_iff
  rw [← hproof]
  constructor
  · intro hok
    obtain ⟨hphase, hproof, _⟩ := processSignReveal_eq_ok_iff.mp
      (Prod.ext hok rfl : processSignReveal sender partialSig complianceProof state = (.ok (), _))
    exact ⟨hphase, hproof⟩
  · rintro ⟨hphase, hproof⟩
    rw [processSignReveal_eq_ok_iff.mpr ⟨hphase, hproof, rfl⟩]

section Steps

variable [Cipher] [Sha3]

/-- A call that does not return begins no round. -/
theorem messageAfter_of_refused (h : (event.1.perform run.state).1 ≠ .ok ()) :
    run.messageAfter event = run.message := by
  obtain ⟨operation, message⟩ := event
  cases operation with
  | startSigningRound =>
    refine if_neg fun hready => h ?_
    rw [McpOperation.perform, startSigningRound_eq_ok_iff.mpr ⟨hready, rfl⟩]
  | _ => rfl

/-- A partial signature that is refused need not be bound. -/
theorem boundMessage_of_refused (h : (event.1.perform run.state).1 ≠ .ok ()) :
    run.BoundMessage event := by
  obtain ⟨operation, message⟩ := event
  cases operation with
  | processSignReveal sender partialSig complianceProof =>
    intro hphase hpoint
    exact absurd (processSignReveal_ok_iff.mpr ⟨hphase, hpoint⟩) h
  | _ => trivial

/-- Commitments come first in every round. -/
theorem commitsFirst_step (h : run.CommitsFirst) : (run.step event).CommitsFirst := by
  obtain ⟨operation, message⟩ := event
  have heffect := step_effect run.state operation
  change CommitsFirst ⟨run.state.step operation, _⟩
  generalize run.state.step operation = next at heffect
  cases heffect with
  | refused | distributed | madeCommitment | madeReveal => exact h
  | started => exact nofun
  | committed =>
    intro hphase
    simp only at hphase
    split at hphase <;> cases hphase
  | shared =>
    intro hphase
    simp only at hphase
    split at hphase <;> cases hphase
  | finalized _ hphase => rcases hphase with rfl | rfl <;> exact nofun
  | roundStarted => exact fun _ => rfl
  | signCommitted hphase => exact fun _ => h hphase
  | revealed =>
    intro hphase
    simp only at hphase
    split at hphase <;> cases hphase
  | combined _ _ _ _ _ hphase => rcases hphase with rfl | rfl <;> exact nofun
  | verified _ _ _ _ hphase => rcases hphase with rfl | rfl <;> exact nofun

/-- After a call all partial signatures are bound exactly when the accepted one is. -/
theorem revealsBound_step_iff (hfirst : run.CommitsFirst) (hbound : run.RevealsBound) :
    (run.step event).RevealsBound ↔ run.BoundMessage event := by
  obtain ⟨operation, message⟩ := event
  have heffect := step_effect run.state operation
  change RevealsBound ⟨run.state.step operation, run.messageAfter (operation, message)⟩ ↔ _
  generalize run.state.step operation = next at heffect
  cases heffect with
  | refused hfailed =>
    rw [messageAfter_of_refused hfailed]
    exact iff_of_true hbound (boundMessage_of_refused hfailed)
  | distributed | madeCommitment | madeReveal => exact iff_of_true hbound trivial
  | started | committed | shared | finalized | combined | verified =>
    exact iff_of_true (hbound.frame rfl rfl rfl) trivial
  | roundStarted => exact iff_of_true nofun trivial
  | signCommitted hphase =>
    refine iff_of_true ?_ trivial
    intro reveal hmem
    rw [hfirst hphase] at hmem
    exact absurd hmem List.not_mem_nil
  | revealed hphase hproof =>
    constructor
    · intro h _ _
      exact (h _ (List.mem_append_right _ (List.mem_singleton.mpr rfl))).frame rfl rfl
    · intro hmessage reveal hmem
      rcases List.mem_append.mp hmem with hmem | hmem
      · exact (hbound reveal hmem).frame rfl rfl
      · rw [List.mem_singleton.mp hmem]
        exact (hmessage hphase (verifyComplianceProof_eq_ok_iff.mp hproof)).frame rfl rfl

/-- In every run the partial signatures are bound exactly when all accepted ones are. -/
theorem throughout_revealsBound_iff {n t : ℕ} {myId : ParticipantId}
    {networkParams : Option Ats.NetworkPublicParams} {events : List RoundEvent} :
    Run.Throughout step RevealsBound (initial n t myId networkParams) events ↔
      Run.Guarded step BoundMessage (initial n t myId networkParams) events := by
  have hfirst : Run.Throughout step CommitsFirst (initial n t myId networkParams) events :=
    Run.throughout_of_step (fun _ _ => commitsFirst_step) nofun
  exact Run.throughout_iff_guarded_of (fun _ _ hbound hfirst => revealsBound_step_iff hfirst hbound)
    nofun hfirst.guarded

omit [Cipher] in
/-- What an honest signer commits to. -/
theorem commitment_of_createSignCommitment {msg : List UInt8} {signer : Ats.SignerConfig}
    {nonce : Scalar} {maker maker' : McpState} {commitment : G1Point × MembershipProof}
    (h : createSignCommitment msg signer nonce maker = (.ok commitment, maker')) :
    commitment.1 = signer.dkgShare • hashToG1 msg (byteLiteral "SIGIMORA_MCP_SIG") := by
  unfold createSignCommitment at h
  rw [Stateful.get_bind, Stateful.lift_bind_eq_ok] at h
  obtain ⟨params, _, h⟩ := h
  rw [Stateful.lift_bind_eq_ok] at h
  obtain ⟨membershipProof, _, h⟩ := h
  cases h
  rfl

/-- An honest signer reveals the point of its commitment only if its share is zero or
the two tags lead to one point. -/
theorem honest_reveal_committed_iff {msg : List UInt8} {signer : Ats.SignerConfig}
    {nonce : Scalar} {maker maker' : McpState} {commitment : G1Point × MembershipProof}
    (h : createSignCommitment msg signer nonce maker = (.ok commitment, maker'))
    (trackingPk : G2Point) (coins : Ats.TagCoins) :
    (Ats.signPartial signer msg trackingPk coins).sigma = commitment.1 ↔
      signer.dkgShare = 0 ∨
        Ats.hashMessage msg = hashToG1 msg (byteLiteral "SIGIMORA_MCP_SIG") := by
  rw [commitment_of_createSignCommitment h]
  change signer.dkgShare • Ats.hashMessage msg = _ ↔ _
  rw [← sub_eq_zero, ← smul_sub, smul_eq_zero, sub_eq_zero]

/-- **Partial signatures.** In every run all recorded partial signatures are bound exactly
when every accepted one is bound when it arrives. What an honest signer makes is accepted
in the reveal phase unless the nonce of its proof is zero. -/
theorem reveals_bound_iff (n t : ℕ) (myId : ParticipantId)
    (networkParams : Option Ats.NetworkPublicParams) :
    (∀ events, Run.Throughout step RevealsBound (initial n t myId networkParams) events ↔
        Run.Guarded step BoundMessage (initial n t myId networkParams) events) ∧
      ∀ (msg : List UInt8) (signer : Ats.SignerConfig) (trackingPk : G2Point)
        (coins : Ats.TagCoins) (nonce : Scalar) (maker receiver : McpState),
        ∃ reveal, createSignReveal msg signer trackingPk coins nonce maker = (.ok reveal, maker) ∧
          ((processSignReveal signer.nodeId reveal.1 reveal.2 receiver).1 = .ok () ↔
            receiver.phase = .signReveal ∧ nonce ≠ 0) := by
  refine ⟨fun events => throughout_revealsBound_iff, ?_⟩
  intro msg signer trackingPk coins nonce maker receiver
  refine ⟨(Ats.signPartial signer msg trackingPk coins, ⟨nonce • G1Point.generator, nonce⟩),
    rfl, ?_⟩
  rw [processSignReveal_ok_iff, ne_eq, smul_eq_zero_iff_left G1Point.generator_ne_zero]

end Steps

/-! ## A round of one participant -/

omit [Curve] in
/-- A network of one member, whose key is the identity. -/
def loneMember : @Ats.NetworkPublicParams exponentCurve :=
  letI := exponentCurve
  { n := 1, threshold := 1, collectivePk := 0, trackingPk := 0, memberPks := [(1, 0)],
    memberLtPks := [(1, 0)] }

omit [Curve] in
/-- A participant on its own comes to the reveal phase of a round. -/
def loneRound : List (@RoundEvent exponentCurve) :=
  letI := exponentCurve
  [(.startDkg PedersenSetup.deterministic (fun _ => 1) fun _ => 1, []),
    (.processDkgCommit 1 0 ⟨[]⟩ ⟨G2Point.generator, 1⟩, []),
    (.finalizeDkg, []),
    (.startSigningRound, [1]),
    (.processSignCommitment 1 0 ⟨G2Point.generator, 1⟩, [])]

omit [Curve] in
/-- A partial signature of the first node, sent by the ninth. -/
def foreignReveal : @RoundEvent exponentCurve :=
  letI := exponentCurve
  (.processSignReveal 9 ⟨1, 0, ⟨1, 0, [], []⟩⟩ ⟨G1Point.generator, 1⟩, [])

omit [Curve] in
/-- A partial signature is recorded that is sent by somebody who is no member. -/
theorem foreign_reveal_recorded :
    letI := exponentCurve
    letI := plainCipher
    letI := truncatingSha3
    ¬ ∀ (n t : ℕ) (myId : ParticipantId) (networkParams : Option Ats.NetworkPublicParams)
      (events : List RoundEvent),
      Run.Throughout step RevealsBound (initial n t myId networkParams) events := by
  let := exponentCurve
  let := plainCipher
  let := truncatingSha3
  intro h
  have hguarded := throughout_revealsBound_iff.mp
    (h 1 0 1 (some loneMember) (loneRound ++ [foreignReveal]))
  let before := Run.after step (initial 1 0 1 (some loneMember)) loneRound
  have hmessage : before.BoundMessage foreignReveal :=
    hguarded loneRound foreignReveal (List.prefix_refl _)
  have hbound := hmessage (by decide +kernel) G1Point.generator_ne_zero
  exact absurd hbound.nodeId (by decide)

end RoundRun

end Sigimora.Mcp
