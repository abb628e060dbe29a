import Sigimora.Mcp.Effects
import Sigimora.Mcp.Schnorr

/-!
# Enough messages

The handlers count entries and do not look at the senders. A commit may come from a
stranger or replace the own one, a share may be repeated or come from the participant
itself, and a partial signature may be repeated or come from somebody who has not
committed. When no such message is accepted, a phase ends on enough different
participants.
-/

namespace Sigimora.Mcp

open Pedersen

variable [Curve]

/-- A participant, with the commit that the start of its key generation returned. -/
structure ParticipantRun where
  state : McpState
  own : Option DkgCommit

/-- The members that the participant knows. -/
def McpState.members (state : McpState) : List ParticipantId :=
  match state.networkParams with
  | some params => params.memberPks.map Prod.fst
  | none => []

namespace ParticipantRun

/-- Before the first call. -/
def initial (n t : ℕ) (myId : ParticipantId) (networkParams : Option Ats.NetworkPublicParams) :
    ParticipantRun where
  state := McpState.configured n t myId networkParams
  own := none

/-- One commit of each participant is recorded, and the own one is as it was made. -/
structure AllCommitted (run : ParticipantRun) : Prop where
  everybody : run.state.receivedCommits.keys.image UInt16.toNat = Finset.Icc 1 run.state.n
  own : ∃ commit, run.own = some commit ∧
    run.state.receivedCommits.lookup run.state.myId = some commit

/-- Shares of all others are recorded. -/
def AllShared (run : ParticipantRun) : Prop :=
  run.state.n - 1 ≤
    ((run.state.receivedShares.map Prod.fst).toFinset.erase run.state.myId).card

/-- Commitments of `t + 1` members are recorded. -/
structure QuorumCommitted (run : ParticipantRun) : Prop where
  members : ∀ id ∈ run.state.receivedSignCommits.keys, id ∈ run.state.members
  enough : run.state.t + 1 ≤ run.state.receivedSignCommits.keys.card

/-- Partial signatures of `t + 1` members that have committed are recorded. -/
def QuorumRevealed (run : ParticipantRun) : Prop :=
  run.state.t + 1 ≤ ((run.state.receivedSignReveals.map Prod.fst).toFinset.filter
    fun id => id ∈ run.state.receivedSignCommits.keys ∧ id ∈ run.state.members).card

section Steps

variable [Cipher] [Sha3]

/-- The own commit after a call. -/
def ownAfter (run : ParticipantRun) : McpOperation → Option DkgCommit
  | .startDkg pedersen coins zkpCoins =>
    match (Mcp.startDkg pedersen coins zkpCoins run.state).1 with
    | .ok commit => some commit
    | .error _ => run.own
  | _ => run.own

/-- Make one call. -/
def step (run : ParticipantRun) (operation : McpOperation) : ParticipantRun where
  state := run.state.step operation
  own := run.ownAfter operation

/-- The phases that the call reaches are reached on enough different participants. -/
structure AdvancesOnEnough (run : ParticipantRun) (operation : McpOperation) : Prop where
  dkgShare : (run.step operation).state.phase = .dkgShare → (run.step operation).AllCommitted
  dkgVerify : ∀ sender encryptedShare complianceProof,
    operation = .processDkgShare sender encryptedShare complianceProof →
    run.state.phase ≠ .dkgVerify → (run.step operation).state.phase = .dkgVerify →
    (run.step operation).AllShared
  signReveal : (run.step operation).state.phase = .signReveal →
    (run.step operation).QuorumCommitted
  signCombine : ∀ sender partialSig complianceProof,
    operation = .processSignReveal sender partialSig complianceProof →
    run.state.phase ≠ .signCombine → (run.step operation).state.phase = .signCombine →
    (run.step operation).QuorumRevealed

/-- A message that is accepted comes from somebody who has to send it and has not yet. -/
def SoundMessage (run : ParticipantRun) : McpOperation → Prop
  | .processDkgCommit sender publicKey vssPublic stakeProof =>
    run.state.phase = .dkgCommit →
    ZkpEngine.verifyStakeProof publicKey vssPublic stakeProof = .ok () →
    (1 ≤ sender.toNat ∧ sender.toNat ≤ run.state.n) ∧
      (sender = run.state.myId →
        run.state.receivedCommits.lookup sender = some (publicKey, vssPublic, stakeProof))
  | .processDkgShare sender encryptedShare complianceProof =>
    run.state.phase = .dkgShare →
    ZkpEngine.verifyComplianceProof sender encryptedShare complianceProof = .ok () →
    sender ≠ run.state.myId ∧ sender ∉ run.state.receivedShares.map Prod.fst
  | .processSignReveal sender partialSig complianceProof =>
    run.state.phase = .signReveal →
    ZkpEngine.verifyComplianceProof sender partialSig.sigma.toBytes complianceProof = .ok () →
    sender ∈ run.state.receivedSignCommits.keys ∧
      sender ∉ run.state.receivedSignReveals.map Prod.fst
  | _ => True

end Steps

/-! ## What sound messages keep -/

/-- What the key generation has recorded. -/
structure KeyOrder (run : ParticipantRun) : Prop where
  participants : ∀ id ∈ run.state.receivedCommits.keys, 1 ≤ id.toNat ∧ id.toNat ≤ run.state.n
  own : run.state.phase ≠ .idle → ∃ commit, run.own = some commit ∧
    run.state.receivedCommits.lookup run.state.myId = some commit
  complete : run.state.phase = .dkgShare → run.state.n ≤ run.state.receivedCommits.keys.card
  others : run.state.myId ∉ run.state.receivedShares.map Prod.fst
  once : (run.state.receivedShares.map Prod.fst).Nodup

/-- What a round of signing has recorded. -/
structure SignOrder (run : ParticipantRun) : Prop where
  members : ∀ id ∈ run.state.receivedSignCommits.keys, id ∈ run.state.members
  enough : run.state.phase = .signReveal →
    run.state.t + 1 ≤ run.state.receivedSignCommits.keys.card
  committed : ∀ id ∈ run.state.receivedSignReveals.map Prod.fst,
    id ∈ run.state.receivedSignCommits.keys
  once : (run.state.receivedSignReveals.map Prod.fst).Nodup

variable {run : ParticipantRun} {operation : McpOperation} {next : McpState}
  {own : Option DkgCommit}

/-- Calls of the signing, and the end of the key generation, leave its records alone. -/
theorem KeyOrder.frame (h : KeyOrder run) (hn : next.n = run.state.n)
    (hid : next.myId = run.state.myId) (hcommits : next.receivedCommits = run.state.receivedCommits)
    (hshares : next.receivedShares = run.state.receivedShares) (hbefore : run.state.phase ≠ .idle)
    (hafter : next.phase = .dkgShare → run.state.phase = .dkgShare) :
    KeyOrder ⟨next, run.own⟩ := by
  refine ⟨?_, fun _ => ?_, ?_, ?_, ?_⟩
  · rw [hn, hcommits]
    exact h.participants
  · rw [hid, hcommits]
    exact h.own hbefore
  · intro hphase
    rw [hn, hcommits]
    exact h.complete (hafter hphase)
  · rw [hid, hshares]
    exact h.others
  · rw [hshares]
    exact h.once

/-- The order of a signing round depends on what it has received and on its members only. -/
theorem SignOrder.frame (h : SignOrder run) (ht : next.t = run.state.t)
    (hmembers : next.members = run.state.members)
    (hcommits : next.receivedSignCommits = run.state.receivedSignCommits)
    (hreveals : next.receivedSignReveals = run.state.receivedSignReveals)
    (hafter : next.phase = .signReveal → run.state.phase = .signReveal) :
    SignOrder ⟨next, own⟩ := by
  refine ⟨?_, fun hphase => ?_, ?_, ?_⟩
  · rw [hcommits, hmembers]
    exact h.members
  · rw [ht, hcommits]
    exact h.enough (hafter hphase)
  · rw [hcommits, hreveals]
    exact h.committed
  · rw [hreveals]
    exact h.once

/-- A membership proof is accepted from members only. -/
theorem mem_members_of_proof [Sha3] {state : McpState} {params : Ats.NetworkPublicParams}
    {sender : ParticipantId} {membershipProof : MembershipProof}
    (hparams : state.networkParams = some params)
    (hproof : ZkpEngine.verifyMembershipProof sender membershipProof params = .ok ()) :
    sender ∈ state.members := by
  obtain ⟨_, entry, hfind, _⟩ := verifyMembershipProof_eq_ok_iff.mp hproof
  have hid : entry.1 = sender := by simpa using List.find?_some hfind
  simp only [McpState.members, hparams]
  exact List.mem_map.mpr ⟨entry, List.mem_of_find?_eq_some hfind, hid⟩

/-- In the share phase everybody has committed. -/
theorem KeyOrder.allCommitted (h : KeyOrder run) (hphase : run.state.phase = .dkgShare) :
    run.AllCommitted := by
  refine ⟨Finset.eq_of_subset_of_card_le ?_ ?_, h.own (by rw [hphase]; decide)⟩
  · intro k hk
    obtain ⟨id, hid, rfl⟩ := Finset.mem_image.mp hk
    exact Finset.mem_Icc.mpr (h.participants id hid)
  · rw [Nat.card_Icc, Finset.card_image_of_injective _ fun _ _ => UInt16.toNat_inj.mp]
    exact h.complete hphase

/-- Enough recorded shares are shares of enough others. -/
theorem KeyOrder.allShared (h : KeyOrder run)
    (henough : run.state.n - 1 ≤ run.state.receivedShares.length) : run.AllShared := by
  have hothers : run.state.myId ∉ (run.state.receivedShares.map Prod.fst).toFinset := by
    rw [List.mem_toFinset]
    exact h.others
  rw [AllShared, Finset.erase_eq_of_notMem hothers, List.toFinset_card_of_nodup h.once,
    List.length_map]
  exact henough

/-- Enough recorded partial signatures are those of enough members. -/
theorem SignOrder.quorumRevealed (h : SignOrder run)
    (henough : run.state.t + 1 ≤ run.state.receivedSignReveals.length) : run.QuorumRevealed := by
  have hall : (run.state.receivedSignReveals.map Prod.fst).toFinset.filter
      (fun id => id ∈ run.state.receivedSignCommits.keys ∧ id ∈ run.state.members) =
      (run.state.receivedSignReveals.map Prod.fst).toFinset := by
    refine Finset.filter_true_of_mem fun id hid => ?_
    have hcommitted := h.committed id (List.mem_toFinset.mp hid)
    exact ⟨hcommitted, h.members id hcommitted⟩
  rw [QuorumRevealed, hall, List.toFinset_card_of_nodup h.once, List.length_map]
  exact henough

section Completion

variable [Cipher] [Sha3] {sender : ParticipantId}

/-- The share that ends its phase makes the number complete. -/
theorem enough_of_shared {encryptedShare : List UInt8} {complianceProof : ComplianceProof}
    (heffect : Effect run.state (.processDkgShare sender encryptedShare complianceProof) next)
    (hbefore : run.state.phase ≠ .dkgVerify) (hafter : next.phase = .dkgVerify) :
    next.n - 1 ≤ next.receivedShares.length := by
  cases heffect with
  | refused => exact absurd hafter hbefore
  | shared hphase hproof =>
    simp only at hafter ⊢
    split at hafter
    · rename_i henough
      rw [List.length_append]
      exact henough
    · cases hafter

/-- The partial signature that ends its phase makes the number complete. -/
theorem enough_of_revealed {partialSig : Ats.PartialSignature}
    {complianceProof : ComplianceProof}
    (heffect : Effect run.state (.processSignReveal sender partialSig complianceProof) next)
    (hbefore : run.state.phase ≠ .signCombine) (hafter : next.phase = .signCombine) :
    next.t + 1 ≤ next.receivedSignReveals.length := by
  cases heffect with
  | refused => exact absurd hafter hbefore
  | revealed hphase hproof =>
    simp only at hafter ⊢
    split at hafter
    · rename_i henough
      rw [List.length_append]
      exact henough
    · cases hafter

end Completion

section StepLemmas

variable [Cipher] [Sha3]

/-- A call that does not return makes no commit. -/
theorem ownAfter_of_refused (h : (operation.perform run.state).1 ≠ .ok ()) :
    run.ownAfter operation = run.own := by
  cases operation with
  | startDkg pedersen coins zkpCoins =>
    unfold ownAfter
    match hcall : (Mcp.startDkg pedersen coins zkpCoins run.state).1 with
    | .ok commit =>
      refine absurd ?_ h
      rw [McpOperation.perform, Stateful.ignore, hcall]
      rfl
    | .error e => simp only [hcall]
  | _ => rfl

omit [Curve] [Cipher] [Sha3] in
/-- What holds of all senders on file and of a new one holds after its message is filed. -/
theorem forall_mem_keys_insert {β : Type} {records : Finmap fun _ : ParticipantId => β}
    {P : ParticipantId → Prop} {sender : ParticipantId} (hsender : P sender)
    (h : ∀ id ∈ records.keys, P id) (message : β) :
    ∀ id ∈ (records.insert sender message).keys, P id := by
  intro id hmem
  rw [Finmap.mem_keys, Finmap.mem_insert] at hmem
  rcases hmem with rfl | hmem
  · exact hsender
  · exact h id (Finmap.mem_keys.mpr hmem)

/-- Sound messages keep the records of the key generation in order. -/
theorem KeyOrder.effect (h : KeyOrder run) (hsound : run.SoundMessage operation)
    (heffect : Effect run.state operation next) : KeyOrder ⟨next, run.ownAfter operation⟩ := by
  cases heffect with
  | refused hfailed =>
    rw [ownAfter_of_refused hfailed]
    exact h
  | distributed => exact h
  | madeCommitment => exact h
  | madeReveal => exact h
  | started hphase hid hcommit =>
    simp only [ownAfter, hcommit]
    exact ⟨forall_mem_keys_insert hid h.participants _,
      fun _ => ⟨_, rfl, Finmap.lookup_insert _⟩, nofun, h.others, h.once⟩
  | committed hphase hproof =>
    rename_i sender publicKey vssPublic stakeProof
    obtain ⟨hsender, hmine⟩ := hsound hphase hproof
    obtain ⟨commit, hown, hlookup⟩ := h.own (by rw [hphase]; decide)
    refine ⟨forall_mem_keys_insert hsender h.participants _, fun _ => ⟨commit, hown, ?_⟩, ?_,
      h.others, h.once⟩
    · by_cases hme : sender = run.state.myId
      · rw [← hlookup, ← hme, Finmap.lookup_insert, hmine hme]
      · rw [Finmap.lookup_insert_of_ne _ (Ne.symm hme)]
        exact hlookup
    · simp only
      split
      · rename_i henough
        exact fun _ => henough
      · exact nofun
  | shared hphase hproof =>
    obtain ⟨hother, hnew⟩ := hsound hphase hproof
    refine ⟨h.participants, fun _ => h.own (by rw [hphase]; decide), fun _ => h.complete hphase,
      ?_, ?_⟩
    · simp only [List.map_append, List.mem_append, not_or]
      exact ⟨h.others, by simpa using Ne.symm hother⟩
    · rw [List.map_append]
      exact h.once.append (List.nodup_singleton _) (List.disjoint_singleton.mpr hnew)
  | finalized hbefore hphase =>
    refine h.frame rfl rfl rfl rfl (by rw [hbefore]; decide) ?_
    rcases hphase with rfl | rfl <;> exact nofun
  | roundStarted hphase => exact h.frame rfl rfl rfl rfl (by rw [hphase]; decide) nofun
  | signCommitted hphase =>
    refine h.frame rfl rfl rfl rfl (by rw [hphase]; decide) ?_
    simp only
    split <;> exact nofun
  | revealed hphase =>
    refine h.frame rfl rfl rfl rfl (by rw [hphase]; decide) ?_
    simp only
    split <;> exact nofun
  | combined _ _ _ _ hbefore hphase =>
    refine h.frame rfl rfl rfl rfl (by rw [hbefore]; decide) ?_
    rcases hphase with rfl | rfl <;> exact nofun
  | verified _ _ _ hbefore hphase =>
    refine h.frame rfl rfl rfl rfl (by rw [hbefore]; decide) ?_
    rcases hphase with rfl | rfl <;> exact nofun

/-- Sound messages keep the records of a round in order. -/
theorem SignOrder.effect (h : SignOrder run) (hsound : run.SoundMessage operation)
    (heffect : Effect run.state operation next) : SignOrder ⟨next, own⟩ := by
  cases heffect with
  | refused | distributed | madeCommitment | madeReveal => exact h.frame rfl rfl rfl rfl id
  | started => exact h.frame rfl rfl rfl rfl nofun
  | committed =>
    refine h.frame rfl rfl rfl rfl ?_
    simp only
    split <;> exact nofun
  | shared =>
    refine h.frame rfl rfl rfl rfl ?_
    simp only
    split <;> exact nofun
  | finalized _ hphase =>
    refine h.frame rfl rfl rfl rfl ?_
    rcases hphase with rfl | rfl <;> exact nofun
  | combined _ _ _ _ _ hphase =>
    refine h.frame rfl rfl rfl rfl ?_
    rcases hphase with rfl | rfl <;> exact nofun
  | verified _ _ _ _ hphase =>
    refine h.frame rfl rfl rfl rfl ?_
    rcases hphase with rfl | rfl <;> exact nofun
  | roundStarted =>
    refine ⟨fun id hmem => ?_, nofun, nofun, List.nodup_nil⟩
    rw [Finmap.keys_empty] at hmem
    exact absurd hmem (Finset.notMem_empty id)
  | signCommitted hphase hparams hproof =>
    refine ⟨forall_mem_keys_insert (mem_members_of_proof hparams hproof) h.members _, ?_,
      fun id hmem => ?_, h.once⟩
    · simp only
      split
      · rename_i henough
        exact fun _ => henough
      · exact nofun
    · have hcommitted := Finmap.mem_keys.mp (h.committed id hmem)
      exact Finmap.mem_keys.mpr (Finmap.mem_insert.mpr (Or.inr hcommitted))
  | revealed hphase hproof =>
    obtain ⟨hcommitted, hnew⟩ := hsound hphase hproof
    refine ⟨h.members, fun _ => h.enough hphase, fun id hmem => ?_, ?_⟩
    · rw [List.map_append, List.mem_append] at hmem
      rcases hmem with hmem | hmem
      · exact h.committed id hmem
      · rw [List.mem_singleton.mp hmem]
        exact hcommitted
    · rw [List.map_append]
      exact h.once.append (List.nodup_singleton _) (List.disjoint_singleton.mpr hnew)

/-- A run of sound messages keeps all records in order. -/
theorem order_step (h : KeyOrder run ∧ SignOrder run) (hsound : run.SoundMessage operation) :
    KeyOrder (run.step operation) ∧ SignOrder (run.step operation) :=
  ⟨h.1.effect hsound (step_effect _ _), h.2.effect hsound (step_effect _ _)⟩

/-- After a sound message every phase that it reaches is reached on enough of them. -/
theorem advancesOnEnough (h : KeyOrder run ∧ SignOrder run)
    (hsound : run.SoundMessage operation) : run.AdvancesOnEnough operation := by
  obtain ⟨hkeys, hsigns⟩ := order_step h hsound
  refine ⟨hkeys.allCommitted, ?_, fun hphase => ⟨hsigns.members, hsigns.enough hphase⟩, ?_⟩
  · rintro sender encryptedShare complianceProof rfl hbefore hafter
    exact hkeys.allShared (enough_of_shared (step_effect _ _) hbefore hafter)
  · rintro sender partialSig complianceProof rfl hbefore hafter
    exact hsigns.quorumRevealed (enough_of_revealed (step_effect _ _) hbefore hafter)

/-- **Phases.** In every run of sound messages, each phase is reached on messages of
enough different participants. -/
theorem run_advancesOnEnough (n t : ℕ) (myId : ParticipantId)
    (networkParams : Option Ats.NetworkPublicParams) (operations : List McpOperation)
    (hsound : Run.Guarded step SoundMessage (initial n t myId networkParams) operations) :
    Run.Guarded step AdvancesOnEnough (initial n t myId networkParams) operations := by
  have hinitial : KeyOrder (initial n t myId networkParams) ∧
      SignOrder (initial n t myId networkParams) := by
    refine ⟨⟨nofun, fun h => absurd rfl h, nofun, List.not_mem_nil, List.nodup_nil⟩, ?_⟩
    exact ⟨nofun, nofun, nofun, List.nodup_nil⟩
  have horder : Run.Throughout step (fun run => KeyOrder run ∧ SignOrder run)
      (initial n t myId networkParams) operations :=
    Run.throughout_of_guarded (fun _ _ => order_step) hinitial hsound
  intro done operation hdone
  exact advancesOnEnough (horder done ((List.prefix_append _ _).trans hdone))
    (hsound done operation hdone)

end StepLemmas

/-! ## Small runs -/

omit [Curve] in
/-- The start of a participant with the secret five. -/
def startOfFive : @McpOperation exponentCurve :=
  letI := exponentCurve
  .startDkg PedersenSetup.deterministic (fun _ => Scalar.ofId 5) fun _ => 1

omit [Curve] in
/-- A commit to the secret zero. -/
def commitToZero (sender : ParticipantId) : @McpOperation exponentCurve :=
  letI := exponentCurve
  .processDkgCommit sender 0 ⟨[]⟩ ⟨G2Point.generator, 1⟩

omit [Curve] in
/-- A share that is accepted. -/
def someShare (sender : ParticipantId) : @McpOperation exponentCurve :=
  letI := exponentCurve
  .processDkgShare sender [] ⟨G1Point.generator, 1⟩

omit [Curve] in
/-- Two participants up to the verification. -/
theorem advancesOnEnough_two :
    letI := exponentCurve
    letI := plainCipher
    letI := truncatingSha3
    (Run.after step (initial 2 1 1 none) [startOfFive, commitToZero 2, someShare 2]).state.phase =
        .dkgVerify ∧
      Run.Guarded step AdvancesOnEnough (initial 2 1 1 none)
        [startOfFive, commitToZero 2, someShare 2] := by
  let := exponentCurve
  let := plainCipher
  let := truncatingSha3
  refine ⟨by decide +kernel, run_advancesOnEnough 2 1 1 none _ ?_⟩
  refine Run.guarded_cons.mpr ⟨trivial, Run.guarded_cons.mpr ⟨?_, Run.guarded_cons.mpr ⟨?_, ?_⟩⟩⟩
  · exact fun _ _ => ⟨by decide +kernel, fun hme => absurd hme (by decide +kernel)⟩
  · exact fun _ _ => by decide +kernel
  · exact Run.guarded_nil

omit [Curve] in
/-- The commit of a stranger completes the commits of two participants. -/
theorem stranger_counted :
    letI := exponentCurve
    letI := plainCipher
    letI := truncatingSha3
    ¬ ∀ (n t : ℕ) (myId : ParticipantId) (networkParams : Option Ats.NetworkPublicParams)
      (operations : List McpOperation),
      Run.Guarded step AdvancesOnEnough (initial n t myId networkParams) operations := by
  let := exponentCurve
  let := plainCipher
  let := truncatingSha3
  intro h
  let started := Run.after step (initial 2 1 1 none) [startOfFive]
  have hphase : (started.step (commitToZero 7)).state.phase = .dkgShare := by decide +kernel
  have hadvances : started.AdvancesOnEnough (commitToZero 7) :=
    h 2 1 1 none [startOfFive, commitToZero 7] [startOfFive] (commitToZero 7)
      (List.prefix_refl _)
  have hall := hadvances.dkgShare hphase
  have hsize : ¬ 7 ≤ (started.step (commitToZero 7)).state.n := by decide +kernel
  refine hsize (Finset.mem_Icc.mp (hall.everybody.subset ?_)).2
  decide +kernel

end ParticipantRun

end Sigimora.Mcp
