import Sigimora.Crypto.Dkg
import Sigimora.Crypto.ShareEncryption
import Sigimora.Library.Stateful
import Sigimora.Mcp.Error
import Sigimora.Mcp.Zkp

/-!
# The protocol state machine

The phases of one participant, the messages and the calls that process them. The
handlers of messages move on to the next phase themselves as soon as enough
messages have arrived. The calls that end a phase ask for the same transition
once more.
-/

namespace Sigimora.Mcp

open Pedersen

/-- The phases of the protocol. -/
inductive McpPhase
  | idle
  | dkgCommit
  | dkgShare
  | dkgVerify
  | ready
  | signCommit
  | signReveal
  | signCombine
  | verifyZkp
  deriving DecidableEq, Repr

instance : ToString McpPhase where
  toString
    | .idle => "Idle"
    | .dkgCommit => "DKG: Commit Phase"
    | .dkgShare => "DKG: Share Distribution"
    | .dkgVerify => "DKG: Verification"
    | .ready => "Ready"
    | .signCommit => "Sign: Commit Phase"
    | .signReveal => "Sign: Reveal Phase"
    | .signCombine => "Sign: Combine Phase"
    | .verifyZkp => "ZKP: Verification"

/-- The phase that may follow. -/
def McpPhase.follows : McpPhase → McpPhase → Bool
  | .idle, .dkgCommit => true
  | .dkgCommit, .dkgShare => true
  | .dkgShare, .dkgVerify => true
  | .dkgVerify, .ready => true
  | .ready, .signCommit => true
  | .signCommit, .signReveal => true
  | .signReveal, .signCombine => true
  | .signCombine, .verifyZkp => true
  | .verifyZkp, .ready => true
  | _, _ => false

/-- A hash map by participant. -/
abbrev ByParticipant (α : Type) := Finmap fun _ : ParticipantId => α

variable [Curve]

/-- A recorded commit. -/
abbrev DkgCommit := G2Point × VssPublic × StakeProof

/-- The messages between participants. -/
inductive McpMessage
  | handshake (sender : ParticipantId) (publicKey : G2Point) (identityProof : List UInt8)
      (timestamp : UInt64)
  | dkgCommit (sender : ParticipantId) (publicKey : G2Point) (vssPublic : VssPublic)
      (stakeProof : StakeProof)
  | dkgShare (sender recipient : ParticipantId) (encryptedShare : List UInt8)
      (complianceProof : ComplianceProof)
  | disqualify (sender accused : ParticipantId) (noCheatingProof : NoCheatingProof)
  | signCommit (sender : ParticipantId) (commitment : G1Point) (membershipProof : MembershipProof)
  | signReveal (sender : ParticipantId) (partialSig : Ats.PartialSignature)
      (complianceProof : ComplianceProof)
  | combinedSignature (sender : ParticipantId) (combinedSig : Ats.AtsSignature)
      (thresholdProof : ThresholdProof)

/-- The state of one participant. -/
structure McpState where
  n : ℕ
  t : ℕ
  myId : ParticipantId
  phase : McpPhase
  dkgState : Option DkgState
  mySignerConfig : Option Ats.SignerConfig
  networkParams : Option Ats.NetworkPublicParams
  receivedCommits : ByParticipant DkgCommit
  receivedShares : List (ParticipantId × List UInt8 × ComplianceProof)
  receivedSignCommits : ByParticipant (G1Point × MembershipProof)
  receivedSignReveals : List (ParticipantId × Ats.PartialSignature × ComplianceProof)

/-- A call of the protocol. -/
abbrev McpCall (α : Type) := Stateful McpState McpError α

namespace McpState

/-- The state before the first call. -/
def new (n t : ℕ) (myId : ParticipantId) : McpState where
  n := n
  t := t
  myId := myId
  phase := .idle
  dkgState := none
  mySignerConfig := none
  networkParams := none
  receivedCommits := ∅
  receivedShares := []
  receivedSignCommits := ∅
  receivedSignReveals := []

/-- The number of signers that a signature needs. -/
def quorumSize (state : McpState) : ℕ := state.t + 1

end McpState

/-- Move on to a phase that may follow the present one. -/
def transitionTo (phase : McpPhase) : McpCall Unit := do
  let state ← Stateful.get
  if ¬ state.phase.follows phase then
    Stateful.fail (.invalidStateTransition s!"{state.phase}" s!"{phase}")
  else Stateful.modify fun state => { state with phase }

/-! ## Key generation -/

section KeyGeneration

variable [Sha3]

/-- Draw the own key and polynomial. The first draws are those of the key
generation, the others those of the stake proof. -/
def startDkg (pedersen : PedersenSetup) (coins zkpCoins : ℕ → Scalar) : McpCall DkgCommit := do
  transitionTo .dkgCommit
  let state ← Stateful.get
  let dkg ← Stateful.lift (DkgState.new state.n state.t state.myId pedersen)
  let dkg := dkg.start coins
  let myPk ← Stateful.lift (Outcome.okOr (.dkgError "no public key") dkg.myPublicKey)
  let myVss ← Stateful.lift (Outcome.okOr (.dkgError "no vss public") dkg.myVssPublic)
  let stakeProof ← Stateful.lift (Outcome.mapErr
    (fun e => .protocolError s!"zkp stake proof: {e}")
    (ZkpEngine.generateStakeProof myPk myVss pedersen dkg.mySecret zkpCoins))
  Stateful.modify fun state => { state with
    dkgState := some dkg
    receivedCommits := state.receivedCommits.insert state.myId (myPk, myVss, stakeProof) }
  return (myPk, myVss, stakeProof)

/-- Record the commit of a participant. -/
def processDkgCommit (sender : ParticipantId) (publicKey : G2Point) (vssPublic : VssPublic)
    (stakeProof : StakeProof) : McpCall Unit := do
  let state ← Stateful.get
  if state.phase ≠ .dkgCommit then
    Stateful.fail (.protocolError "not in DKG commit phase")
  else
    Stateful.lift (Outcome.mapErr
      (fun e => .zkpVerificationFailed s!"stake proof from {sender}: {e}")
      (ZkpEngine.verifyStakeProof publicKey vssPublic stakeProof))
    Stateful.modify fun state => { state with
      receivedCommits :=
        state.receivedCommits.insert sender (publicKey, vssPublic, stakeProof) }
    let state ← Stateful.get
    if state.receivedCommits.keys.card ≥ state.n then transitionTo .dkgShare
    else pure ()

end KeyGeneration

/-- Encrypt the share of the recipient. -/
def distributeDkgShare [Cipher] (recipient : ParticipantId) (coins : ShareCoins) (nonce : Scalar) :
    McpCall (ParticipantId × List UInt8 × ComplianceProof) := do
  let state ← Stateful.get
  let dkg ← Stateful.lift (Outcome.okOr (.dkgError "DKG not started") state.dkgState)
  let share ← Stateful.lift
    (Outcome.okOr (.dkgError s!"no share for {recipient}") (dkg.sharesFor recipient))
  let recipientPk ← Stateful.lift (Outcome.okOr (.dkgError s!"no public key for {recipient}")
    ((state.receivedCommits.lookup recipient).map Prod.fst))
  let encrypted := encryptShare share recipientPk coins
  let complianceProof ← Stateful.lift (Outcome.mapErr
    (fun e => .protocolError s!"compliance proof: {e}")
    (ZkpEngine.generateComplianceProof share state.receivedCommits nonce))
  return (recipient, encrypted, complianceProof)

/-- Record the encrypted share of a participant. -/
def processDkgShare (sender : ParticipantId) (encryptedShare : List UInt8)
    (complianceProof : ComplianceProof) : McpCall Unit := do
  let state ← Stateful.get
  if state.phase ≠ .dkgShare then
    Stateful.fail (.protocolError "not in DKG share phase")
  else
    Stateful.lift (Outcome.mapErr
      (fun e => .zkpVerificationFailed s!"compliance from {sender}: {e}")
      (ZkpEngine.verifyComplianceProof sender encryptedShare complianceProof))
    Stateful.modify fun state => { state with
      receivedShares := state.receivedShares ++ [(sender, encryptedShare, complianceProof)] }
    let state ← Stateful.get
    let needed ← Stateful.lift (Outcome.sub state.n 1)
    if state.receivedShares.length ≥ needed then transitionTo .dkgVerify
    else pure ()

/-- Finish the key generation of the inner state. -/
def finalizeInner : McpCall DkgOutput := fun state =>
  match state.dkgState with
  | none => (Outcome.fail (.dkgError "DKG not started"), state)
  | some dkg =>
    let result := dkg.finalize
    (Outcome.mapErr (fun e => .dkgError (debugCryptoError e)) result.1,
      { state with dkgState := some result.2 })

/-- Finish the key generation. -/
def finalizeDkg : McpCall DkgOutput := do
  transitionTo .dkgVerify
  let output ← finalizeInner
  transitionTo .ready
  return output

/-! ## Signing -/

/-- Begin a round of signing. -/
def startSigningRound : McpCall Unit := do
  transitionTo .signCommit
  Stateful.modify fun state =>
    { state with receivedSignCommits := ∅, receivedSignReveals := [] }

section Signing

variable [Sha3]

/-- The own contribution and the proof that goes with it. -/
def createSignCommitment (msg : List UInt8) (signer : Ats.SignerConfig) (nonce : Scalar) :
    McpCall (G1Point × MembershipProof) := do
  let state ← Stateful.get
  let h := hashToG1 msg (byteLiteral "SIGIMORA_MCP_SIG")
  let sigmaI := signer.dkgShare • h
  let params ← Stateful.lift
    (Outcome.okOr (.protocolError "network params not set") state.networkParams)
  let membershipProof ← Stateful.lift (Outcome.mapErr
    (fun e => .protocolError s!"membership proof: {e}")
    (ZkpEngine.generateMembershipProof signer params nonce))
  return (sigmaI, membershipProof)

/-- Record the commitment of a signer. -/
def processSignCommitment (sender : ParticipantId) (commitment : G1Point)
    (membershipProof : MembershipProof) : McpCall Unit := do
  let state ← Stateful.get
  if state.phase ≠ .signCommit then
    Stateful.fail (.protocolError "not in sign commit phase")
  else
    let params ← Stateful.lift
      (Outcome.okOr (.protocolError "network params not set") state.networkParams)
    Stateful.lift (Outcome.mapErr
      (fun e => .zkpVerificationFailed s!"membership from {sender}: {e}")
      (ZkpEngine.verifyMembershipProof sender membershipProof params))
    Stateful.modify fun state => { state with
      receivedSignCommits := state.receivedSignCommits.insert sender (commitment, membershipProof) }
    let state ← Stateful.get
    if state.receivedSignCommits.keys.card ≥ state.quorumSize then transitionTo .signReveal
    else pure ()

end Signing

/-- The own partial signature and the proof that goes with it. -/
def createSignReveal [Cipher] (msg : List UInt8) (signer : Ats.SignerConfig)
    (trackingPk : G2Point) (coins : Ats.TagCoins) (nonce : Scalar) :
    McpCall (Ats.PartialSignature × ComplianceProof) := do
  let state ← Stateful.get
  let partialSig := Ats.signPartial signer msg trackingPk coins
  let complianceProof ← Stateful.lift (Outcome.mapErr
    (fun e => .protocolError s!"sign compliance: {e}")
    (ZkpEngine.generateComplianceProof partialSig state.receivedCommits nonce))
  return (partialSig, complianceProof)

/-- Record the partial signature of a signer. -/
def processSignReveal (sender : ParticipantId) (partialSig : Ats.PartialSignature)
    (complianceProof : ComplianceProof) : McpCall Unit := do
  let state ← Stateful.get
  if state.phase ≠ .signReveal then
    Stateful.fail (.protocolError "not in sign reveal phase")
  else
    Stateful.lift (Outcome.mapErr
      (fun e => .zkpVerificationFailed s!"sign compliance from {sender}: {e}")
      (ZkpEngine.verifyComplianceProof sender partialSig.sigma.toBytes complianceProof))
    Stateful.modify fun state => { state with
      receivedSignReveals := state.receivedSignReveals ++ [(sender, partialSig, complianceProof)] }
    let state ← Stateful.get
    if state.receivedSignReveals.length ≥ state.quorumSize then transitionTo .signCombine
    else pure ()

/-- Aggregate the recorded partial signatures. -/
def combineSignatures (params : Ats.NetworkPublicParams) (_msg : List UInt8) (epoch : UInt64)
    (_aggregatorId : ParticipantId) : McpCall Ats.AtsSignature := do
  transitionTo .signCombine
  let state ← Stateful.get
  let partials := state.receivedSignReveals.map fun entry => entry.2.1
  let sig ← Stateful.lift (Outcome.mapErr (fun e => .signatureError s!"aggregation: {e}")
    (Ats.aggregate partials params epoch state.myId))
  transitionTo .verifyZkp
  return sig

/-- Verify a combined signature. -/
def verifyCombinedSignature (params : Ats.NetworkPublicParams) (msg : List UInt8)
    (sig : Ats.AtsSignature) : McpCall Bool := do
  transitionTo .verifyZkp
  let valid := Ats.verify params msg sig
  if valid then transitionTo .ready else pure ()
  return valid

end Sigimora.Mcp
