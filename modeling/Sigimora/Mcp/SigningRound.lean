import Sigimora.Ats.Signing
import Sigimora.Mcp.Calls

/-!
# Rounds of signing

A participant begins a round, processes the commitments of the members and then
their partial signatures. The last of these already moves on to the combination,
so that the call that combines the partial signatures asks for a transition from
this phase to itself and is refused.
-/

namespace Sigimora.Mcp

open Pedersen

variable [Curve]

/-- A member that takes part in a round: its keys, its own state and its draws. -/
structure SigningMember where
  config : Ats.SignerConfig
  state : McpState
  commitNonce : Scalar
  coins : Ats.TagCoins
  revealNonce : Scalar

variable [Cipher] [Sha3]

/-- Process the commitment that a member makes for the message. -/
def acceptCommitment (msg : List UInt8) (member : SigningMember) : McpCall Unit := do
  let commitment ← Stateful.lift
    (createSignCommitment msg member.config member.commitNonce member.state).1
  processSignCommitment member.config.nodeId commitment.1 commitment.2

omit [Sha3] in
/-- Process the partial signature that a member makes for the message. -/
def acceptReveal (msg : List UInt8) (trackingPk : G2Point) (member : SigningMember) :
    McpCall Unit := do
  let reveal ← Stateful.lift
    (createSignReveal msg member.config trackingPk member.coins member.revealNonce member.state).1
  processSignReveal member.config.nodeId reveal.1 reveal.2

omit [Cipher] [Sha3] in
/-- Make a call for each member in turn. -/
def forMembers (call : SigningMember → McpCall Unit) : List SigningMember → McpCall Unit
  | [] => pure ()
  | member :: members => do
    call member
    forMembers call members

/-- A round up to the last partial signature. -/
def signingRound (msg : List UInt8) (trackingPk : G2Point)
    (commitOrder revealOrder : List SigningMember) : McpCall Unit := do
  startSigningRound
  forMembers (acceptCommitment msg) commitOrder
  forMembers (acceptReveal msg trackingPk) revealOrder

/-! ## The phase after a round -/

variable {state state' : McpState} {msg : List UInt8} {trackingPk : G2Point}
  {member : SigningMember} {members : List SigningMember}

omit [Cipher] in
/-- Commitments leave the partial signatures alone. -/
theorem acceptCommitment_frame (hcall : acceptCommitment msg member state = (.ok (), state')) :
    state'.t = state.t ∧ state'.receivedSignReveals = state.receivedSignReveals := by
  obtain ⟨_, _, hprocess⟩ := Stateful.lift_bind_eq_ok.mp hcall
  obtain ⟨_, _, rfl⟩ := processSignCommitment_eq_ok_iff.mp hprocess
  exact ⟨rfl, rfl⟩

omit [Cipher] in
/-- Accepting commitments leaves the reveals alone. -/
theorem acceptCommitments_frame
    (hcalls : forMembers (acceptCommitment msg) members state = (.ok (), state')) :
    state'.t = state.t ∧ state'.receivedSignReveals = state.receivedSignReveals := by
  induction members generalizing state with
  | nil =>
    cases hcalls
    exact ⟨rfl, rfl⟩
  | cons member members ih =>
    obtain ⟨_, next, hcall, hrest⟩ := Stateful.bind_run_eq_ok.mp hcalls
    obtain ⟨hsize, hreveals⟩ := acceptCommitment_frame hcall
    obtain ⟨hsize', hreveals'⟩ := ih hrest
    exact ⟨hsize'.trans hsize, hreveals'.trans hreveals⟩

omit [Cipher] [Sha3] in
/-- What a participant has come to when `revealed` partial signatures are recorded. -/
structure RevealProgress (t revealed : ℕ) (state : McpState) : Prop where
  size : state.t = t
  reveals : state.receivedSignReveals.length = revealed
  phase : state.phase = .signCombine ∨ revealed < t + 1

omit [Sha3] in
/-- Accepting a reveal is progress. -/
theorem RevealProgress.acceptReveal {t revealed : ℕ} (h : RevealProgress t revealed state)
    (hcall : acceptReveal msg trackingPk member state = (.ok (), state')) :
    RevealProgress t (revealed + 1) state' := by
  obtain ⟨_, _, hprocess⟩ := Stateful.lift_bind_eq_ok.mp hcall
  obtain ⟨_, _, rfl⟩ := processSignReveal_eq_ok_iff.mp hprocess
  refine ⟨h.size, ?_, ?_⟩
  · rw [List.length_append, List.length_singleton, h.reveals]
  · simp only
    rw [h.size, h.reveals]
    split
    · exact Or.inl rfl
    · rename_i hfew
      exact Or.inr (not_le.mp hfew)

omit [Sha3] in
/-- Accepting several is as much progress as there are. -/
theorem RevealProgress.acceptReveals {t revealed : ℕ} (h : RevealProgress t revealed state)
    (hcalls : forMembers (Mcp.acceptReveal msg trackingPk) members state = (.ok (), state')) :
    RevealProgress t (revealed + members.length) state' := by
  induction members generalizing state revealed with
  | nil =>
    cases hcalls
    exact h
  | cons member members ih =>
    obtain ⟨_, next, hcall, hrest⟩ := Stateful.bind_run_eq_ok.mp hcalls
    rw [List.length_cons, Nat.add_comm members.length, ← Nat.add_assoc]
    exact ih (h.acceptReveal hcall) hrest

/-- After `t + 1` partial signatures a participant has moved on to the combination. -/
theorem phase_signingRound {commitOrder revealOrder : List SigningMember}
    (hsize : revealOrder.length = state.t + 1)
    (hround : signingRound msg trackingPk commitOrder revealOrder state = (.ok (), state')) :
    state'.phase = .signCombine := by
  obtain ⟨_, started, hstart, hrest⟩ := Stateful.bind_run_eq_ok.mp hround
  obtain ⟨_, rfl⟩ := startSigningRound_eq_ok_iff.mp hstart
  obtain ⟨_, committed, hcommits, hreveals⟩ := Stateful.bind_run_eq_ok.mp hrest
  obtain ⟨ht, hnone⟩ := acceptCommitments_frame hcommits
  have hbefore : RevealProgress state.t 0 committed := by
    refine ⟨ht, ?_, Or.inr (Nat.succ_pos _)⟩
    rw [hnone]
    rfl
  have hafter := hbefore.acceptReveals hreveals
  rw [hsize, Nat.zero_add] at hafter
  rcases hafter.phase with hcombine | hfew
  · exact hcombine
  · exact absurd hfew (lt_irrefl _)

omit [Cipher] [Sha3] in
/-- The combination is no phase to combine partial signatures from. -/
theorem combineSignatures_of_signCombine (hphase : state.phase = .signCombine)
    (params : Ats.NetworkPublicParams) (msg : List UInt8) (epoch : UInt64)
    (aggregatorId : ParticipantId) :
    combineSignatures params msg epoch aggregatorId state =
      (Outcome.fail (.invalidStateTransition "Sign: Combine Phase" "Sign: Combine Phase"),
        state) := by
  have hrefused : transitionTo .signCombine state =
      (Outcome.fail (.invalidStateTransition "Sign: Combine Phase" "Sign: Combine Phase"),
        state) := by
    rw [transitionTo_run, hphase]
    rfl
  exact Stateful.bind_run_error hrefused _

/-- A member that holds the keys under which it is registered. -/
structure HonestMember (params : Ats.NetworkPublicParams) (f : Polynomial Scalar)
    (member : SigningMember) : Prop where
  config : member.config = Ats.SignerConfig.new member.config.nodeId
    (f.eval (Scalar.ofId member.config.nodeId)) member.config.ltSk
  registered : member.config.nodeId ∈ params.memberPks.map Prod.fst
  ltPk : (member.config.nodeId, member.config.ltSk • G2Point.generator) ∈ params.memberLtPks
  networkParams : member.state.networkParams = some params

/-- A ready participant and `t + 1` honest members, whose messages arrive in some order. -/
structure HonestRound (params : Ats.NetworkPublicParams) (f : Polynomial Scalar)
    (members commitOrder revealOrder : List SigningMember) (state : McpState) : Prop where
  valid : Ats.ValidParams params f
  threshold : params.threshold = state.t + 1
  networkParams : state.networkParams = some params
  ready : state.phase = .ready
  honest : ∀ member ∈ members, HonestMember params f member
  distinct : (members.map fun member => member.config.nodeId).Nodup
  size : members.length = state.t + 1
  commits : commitOrder.Perm members
  reveals : revealOrder.Perm members

/-- **The end of a round.** When the commitments and the partial signatures of
`t + 1` members have been processed, the call that combines them fails. -/
theorem combineSignatures_fails {params : Ats.NetworkPublicParams} {f : Polynomial Scalar}
    {commitOrder revealOrder : List SigningMember}
    (hhonest : HonestRound params f members commitOrder revealOrder state)
    (hround : signingRound msg params.trackingPk commitOrder revealOrder state =
      (.ok (), state')) (epoch : UInt64) (aggregatorId : ParticipantId) :
    combineSignatures params msg epoch aggregatorId state' =
      (Outcome.fail (.invalidStateTransition "Sign: Combine Phase" "Sign: Combine Phase"),
        state') := by
  have hsize : revealOrder.length = state.t + 1 := hhonest.reveals.length_eq.trans hhonest.size
  exact combineSignatures_of_signCombine (phase_signingRound hsize hround) params msg epoch
    aggregatorId

/-! ## A round of two members -/

omit [Curve] [Cipher] [Sha3] in
/-- The two members, with their shares as long-term keys too. -/
def sameKeyMembers : @Ats.NetworkPublicParams exponentCurve :=
  letI := exponentCurve
  { Ats.twoMembers with memberLtPks := Ats.twoMembers.memberPks }

omit [Curve] [Cipher] [Sha3] in
/-- The state of a participant of that network in the given phase. -/
def sameKeyState (phase : McpPhase) : @McpState exponentCurve :=
  letI := exponentCurve
  { McpState.new 2 1 1 with phase, networkParams := some sameKeyMembers }

omit [Curve] [Cipher] [Sha3] in
/-- One of the two members. -/
def sameKeyMember (id : ParticipantId) (share : Scalar) : @SigningMember exponentCurve :=
  letI := exponentCurve
  { config := Ats.SignerConfig.new id share share
    state := sameKeyState .ready
    commitNonce := 1
    coins := ⟨1, 0⟩
    revealNonce := 1 }

omit [Curve] [Cipher] [Sha3] in
/-- A round of participants that share one key. -/
theorem honestRound_sameKey :
    letI := exponentCurve
    HonestRound sameKeyMembers (Horner.toPolynomial [7, 1])
      [sameKeyMember 1 8, sameKeyMember 2 9] [sameKeyMember 1 8, sameKeyMember 2 9]
      [sameKeyMember 2 9, sameKeyMember 1 8] (sameKeyState .ready) := by
  let := exponentCurve
  have hvalid := Ats.validParams_twoMembers
  have hshares : (Horner.toPolynomial [7, 1]).eval (Scalar.ofId 1) = 8 ∧
      (Horner.toPolynomial [7, 1]).eval (Scalar.ofId 2) = 9 := by
    rw [Horner.eval_toPolynomial, Horner.eval_toPolynomial]
    decide +kernel
  have hmembers : ∀ member ∈ [sameKeyMember 1 8, sameKeyMember 2 9],
      HonestMember sameKeyMembers (Horner.toPolynomial [7, 1]) member := by
    refine List.forall_mem_cons.mpr ⟨?_, List.forall_mem_singleton.mpr ?_⟩
    · refine ⟨?_, List.mem_cons_self, ?_, rfl⟩
      · simp only [sameKeyMember, Ats.SignerConfig.new, hshares.1]
      · exact List.mem_cons.mpr (Or.inl (Prod.ext rfl (mul_one (8 : Scalar))))
    · refine ⟨?_, List.mem_cons_of_mem _ List.mem_cons_self, ?_, rfl⟩
      · simp only [sameKeyMember, Ats.SignerConfig.new, hshares.2]
      · exact List.mem_cons_of_mem _
          (List.mem_singleton.mpr (Prod.ext rfl (mul_one (9 : Scalar))))
  exact ⟨⟨hvalid.threshold_pos, hvalid.degree_lt, hvalid.nodup, hvalid.ne_zero,
    hvalid.memberPks, hvalid.collectivePk⟩, rfl, rfl, rfl, hmembers, by decide, rfl,
    List.Perm.refl _, List.Perm.swap _ _ _⟩

omit [Curve] [Cipher] [Sha3] in
/-- All messages of the two members are accepted. -/
theorem exists_sameKey_round :
    letI := exponentCurve
    letI := plainCipher
    letI := truncatingSha3
    ∃ returned state', signingRound [1] sameKeyMembers.trackingPk
      [sameKeyMember 1 8, sameKeyMember 2 9] [sameKeyMember 2 9, sameKeyMember 1 8]
      (sameKeyState .ready) = (.ok returned, state') :=
  Stateful.exists_ok_of_isSome (by decide +kernel)

omit [Curve] [Cipher] [Sha3] in
/-- The combination of the two partial signatures is refused. -/
theorem combineSignatures_fails_sameKey :
    letI := exponentCurve
    letI := plainCipher
    letI := truncatingSha3
    ∃ state', signingRound [1] sameKeyMembers.trackingPk
        [sameKeyMember 1 8, sameKeyMember 2 9] [sameKeyMember 2 9, sameKeyMember 1 8]
        (sameKeyState .ready) = (.ok (), state') ∧
      combineSignatures sameKeyMembers [1] 0 1 state' =
        (Outcome.fail (.invalidStateTransition "Sign: Combine Phase" "Sign: Combine Phase"),
          state') := by
  let := exponentCurve
  let := plainCipher
  let := truncatingSha3
  obtain ⟨_, state', hround⟩ := exists_sameKey_round
  exact ⟨state', hround, combineSignatures_fails honestRound_sameKey hround 0 1⟩

omit [Curve] [Cipher] [Sha3] in
/-- An honest round does not complete. -/
theorem signing_round_stuck :
    letI := exponentCurve
    letI := plainCipher
    letI := truncatingSha3
    ¬ ∀ (params : Ats.NetworkPublicParams) (f : Polynomial Scalar)
      (members commitOrder revealOrder : List SigningMember) (state state' : McpState)
      (msg : List UInt8) (epoch : UInt64) (aggregatorId : ParticipantId),
      HonestRound params f members commitOrder revealOrder state →
      signingRound msg params.trackingPk commitOrder revealOrder state = (.ok (), state') →
      ∃ sig combined verified,
        combineSignatures params msg epoch aggregatorId state' = (.ok sig, combined) ∧
        verifyCombinedSignature params msg sig combined = (.ok true, verified) ∧
        verified.phase = .ready := by
  let := exponentCurve
  let := plainCipher
  let := truncatingSha3
  intro h
  obtain ⟨_, state', hround⟩ := exists_sameKey_round
  obtain ⟨sig, combined, _, hcombine, _⟩ := h sameKeyMembers _ _ _ _ _ _ [1] 0 1
    honestRound_sameKey hround
  have hphase := phase_signingRound (by rfl) hround
  rw [combineSignatures_of_signCombine hphase] at hcombine
  cases hcombine

end Sigimora.Mcp
