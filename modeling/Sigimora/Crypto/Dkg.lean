import Sigimora.Crypto.Error
import Sigimora.Crypto.Participants
import Sigimora.Crypto.Pedersen
import Sigimora.Library.Accumulate
import Sigimora.Math.Pairing

/-!
# Distributed key generation

The state of one party, the messages it processes and the key material it
derives. Each party shares a secret of its own; a party's key share is the sum
of the shares dealt to it, and the collective key is the sum of the parties'
public keys. A call that fails leaves the state as it was, except for
`finalize`, which has rebuilt the set of qualified parties by then.
-/

namespace Sigimora

open Pedersen

variable [Curve]

/-- The domain separation tag of proofs of possession. -/
def popTag : List UInt8 := byteLiteral "SIGIMORA_POP"

/-- The proof of possession of the secret key behind `pk`. -/
def generatePop (sk : Scalar) (pk : G2Point) : G1Point :=
  sk • hashToG1 pk.toBytes popTag

/-- Verify a proof of possession against a public key. -/
def verifyPop (pk : G2Point) (pop : G1Point) : Bool :=
  let h := hashToG1 pk.toBytes popTag
  pairing pop G2Point.generator == pairing h pk

/-- The phases of the protocol. -/
inductive DkgRound
  | idle
  | round1Commit
  | round2Complaint
  | round3QualReveal
  | round4ShareDistribution
  | round5Verification
  | complete
  deriving DecidableEq, Repr

/-- The state of one party. -/
structure DkgState where
  n : ℕ
  f : ℕ
  t : ℕ
  myId : ParticipantId
  mySecret : Option Scalar
  myPublicKey : Option G2Point
  myPop : Option G1Point
  myVssPoly : Option PrivatePoly
  pedersen : PedersenSetup
  receivedPublicKeys : List (ParticipantId × G2Point)
  receivedPops : List (ParticipantId × G1Point)
  receivedVssPublics : List (ParticipantId × VssPublic)
  receivedShares : List (ParticipantId × VssShare)
  complaintsReceived : List (ParticipantId × ParticipantId)
  disqualifications : List ParticipantId
  qualSet : List ParticipantId
  qualPublicKeys : List (ParticipantId × G2Point)
  round : DkgRound

/-- What a party obtains from a completed run. -/
structure DkgOutput where
  mySecret : Scalar
  myPublicKey : G2Point
  allPublicKeys : List G2Point
  n : ℕ
  f : ℕ
  t : ℕ
  qualSet : List ParticipantId
  collectivePk : G2Point

namespace DkgState

/-- The state before the run. -/
def initial (n t : ℕ) (myId : ParticipantId) (pedersen : PedersenSetup) : DkgState where
  n := n
  f := (n - 1) / 3
  t := t
  myId := myId
  mySecret := none
  myPublicKey := none
  myPop := none
  myVssPoly := none
  pedersen := pedersen
  receivedPublicKeys := []
  receivedPops := []
  receivedVssPublics := []
  receivedShares := []
  complaintsReceived := []
  disqualifications := []
  qualSet := []
  qualPublicKeys := []
  round := .idle

/-- Create a state; an impossible threshold or id panics. -/
def new {ε : Type} (n t : ℕ) (myId : ParticipantId) (pedersen : PedersenSetup) :
    Outcome ε DkgState :=
  if ¬ t ≤ n then Outcome.panic "threshold must be <= total participants"
  else if ¬ (myId ≥ 1 ∧ myId ≤ UInt16.ofNat n) then Outcome.panic "invalid participant id"
  else .ok (initial n t myId pedersen)

/-- Draw the own secret, then the polynomial that shares it. -/
def start (state : DkgState) (coins : ℕ → Scalar) : DkgState :=
  let sk := coins 0
  let pk := sk • G2Point.generator
  { state with
    mySecret := some sk
    myPublicKey := some pk
    myPop := some (generatePop sk pk)
    myVssPoly :=
      some (PrivatePoly.randomWithSecret sk state.t state.pedersen fun k => coins (k + 1))
    round := .round1Commit }

/-- The commitments to the own polynomial. -/
def myVssPublic (state : DkgState) : Option VssPublic := state.myVssPoly.map PrivatePoly.commit

/-- The share of the own polynomial for the recipient. -/
def sharesFor (state : DkgState) (recipient : ParticipantId) : Option VssShare :=
  state.myVssPoly.map fun poly => poly.eval recipient

/-- Record the public key, the proof and the commitments of a sender. -/
def processParticipantCommit (state : DkgState) (sender : ParticipantId) (publicKey : G2Point)
    (pop : G1Point) (vssPublic : VssPublic) : Outcome CryptoError DkgState :=
  if ¬ verifyPop publicKey pop then Outcome.fail .popVerificationFailed
  else
    .ok { state with
      receivedPublicKeys := state.receivedPublicKeys ++ [(sender, publicKey)]
      receivedPops := state.receivedPops ++ [(sender, pop)]
      receivedVssPublics := state.receivedVssPublics ++ [(sender, vssPublic)] }

/-- Record a share, checked only if the commitments of its sender are already there. -/
def processReceivedShare (state : DkgState) (sender : ParticipantId) (share : VssShare) :
    Outcome CryptoError DkgState :=
  let recorded := { state with receivedShares := state.receivedShares ++ [(sender, share)] }
  match state.receivedVssPublics.find? fun entry => entry.1 == sender with
  | some entry =>
    if ¬ entry.2.verifyShare share.index share.value share.blinding state.pedersen then
      Outcome.fail (.shareVerificationFailed share.index)
    else .ok recorded
  | none => .ok recorded

/-- All parties that were not disqualified. -/
def buildQualSet (state : DkgState) : DkgState :=
  { state with
    qualSet := (participants state.n).filter fun id => ¬ id ∈ state.disqualifications }

/-- The sum of the qualified parties' public keys, together with their number. -/
def sumPublicKeys (state : DkgState) : G2Point × ℕ :=
  let own :=
    if state.myId ∈ state.qualSet then
      match state.myPublicKey with
      | some myPk => (0 + myPk, 1)
      | none => (0, 0)
    else (0, 0)
  state.receivedPublicKeys.foldl
    (fun (acc : G2Point × ℕ) entry =>
      if entry.1 ∈ state.qualSet then (acc.1 + entry.2, acc.2 + 1) else acc) own

/-- The collective public key; `none` when no public key was counted. -/
def computeCollectivePublicKey (state : DkgState) : Option G2Point :=
  let sum := state.sumPublicKeys
  if sum.2 = 0 then none else some sum.1

/-- The key share: the received shares of qualified parties and the own one. -/
def computeSecretShare (state : DkgState) : Option Scalar :=
  let received := state.receivedShares.foldl
    (fun acc entry => if entry.1 ∈ state.qualSet then acc + entry.2.value else acc) 0
  if state.myId ∈ state.qualSet then
    match state.myVssPoly with
    | some poly => some (received + (poly.eval state.myId).value)
    | none => some received
  else some received

/-- The output, with all contribution keys in the order of their ids. -/
def outputFor (state : DkgState) (myShare : Scalar) (collectivePk : G2Point) : DkgOutput :=
  let contributionPks := (state.myPublicKey.map fun myPk => (state.myId, myPk)).toList ++
    state.receivedPublicKeys
  let sorted := contributionPks.mergeSort fun a b => a.1 ≤ b.1
  { mySecret := myShare
    myPublicKey := myShare • G2Point.generator
    allPublicKeys := sorted.map Prod.snd
    n := state.n
    f := state.f
    t := state.t
    qualSet := state.qualSet
    collectivePk }

/-- Derive the key material. The state is returned on failure as well. -/
def finalize (state : DkgState) : Outcome CryptoError DkgOutput × DkgState :=
  let state := state.buildQualSet
  let qualSize := state.qualSet.length
  if qualSize = 0 then (Outcome.fail (.dkgError "QUAL set is empty"), state)
  else
    let qualShares := (state.receivedShares.filter fun entry => entry.1 ∈ state.qualSet).length
    let needed := qualSize - 1
    if qualShares < needed then
      (Outcome.fail (.dkgError
        s!"insufficient shares from QUAL members: got {qualShares}, need {needed}"), state)
    else
      match state.computeSecretShare with
      | none => (Outcome.fail (.dkgError "failed to compute secret share"), state)
      | some myShare =>
        match state.computeCollectivePublicKey with
        | none => (Outcome.fail (.dkgError "failed to compute collective PK"), state)
        | some collectivePk =>
          (.ok (state.outputFor myShare collectivePk), { state with round := .complete })

end DkgState

/-! ## Single calls -/

/-- The proof of possession made with the secret key verifies, and no other point. -/
theorem verifyPop_smul_iff {sk : Scalar} {pop : G1Point} :
    verifyPop (sk • G2Point.generator) pop = true ↔
      pop = generatePop sk (sk • G2Point.generator) := by
  rw [verifyPop, beq_iff_eq, generatePop, pairing_smul_right, ← pairing_smul_left,
    pairing_generator_inj]

/-- A proof that is made with the secret key is accepted. -/
theorem verifyPop_generatePop (sk : Scalar) :
    verifyPop (sk • G2Point.generator) (generatePop sk (sk • G2Point.generator)) = true :=
  verifyPop_smul_iff.mpr rfl

namespace DkgState

/-- The ids that pass the assertions are those of the participant range. -/
theorem new_eq_ok {ε : Type} {n t : ℕ} (ht : t ≤ n) {myId : ParticipantId}
    (hid : myId ∈ participants n) (pedersen : PedersenSetup) :
    (new n t myId pedersen : Outcome ε DkgState) = .ok (initial n t myId pedersen) := by
  have hbounds := mem_participants_iff.mp hid
  have hvalid : myId ≥ 1 ∧ myId ≤ UInt16.ofNat n := by
    rw [ge_iff_le, UInt16.le_iff_toNat_le, UInt16.le_iff_toNat_le]
    exact hbounds
  rw [new, if_neg (not_not.mpr ht), if_neg (not_not.mpr hvalid)]

/-- A verifying commit is appended to the three lists of its kind. -/
theorem processParticipantCommit_eq_ok {state : DkgState} {publicKey : G2Point} {pop : G1Point}
    (h : verifyPop publicKey pop = true) (sender : ParticipantId) (vssPublic : VssPublic) :
    state.processParticipantCommit sender publicKey pop vssPublic =
      .ok { state with
        receivedPublicKeys := state.receivedPublicKeys ++ [(sender, publicKey)]
        receivedPops := state.receivedPops ++ [(sender, pop)]
        receivedVssPublics := state.receivedVssPublics ++ [(sender, vssPublic)] } := by
  rw [processParticipantCommit, if_neg (not_not.mpr h)]

/-- A share that opens every known commitment of its sender is appended. -/
theorem processReceivedShare_eq_ok {state : DkgState} {sender : ParticipantId} {share : VssShare}
    (h : ∀ vss, (sender, vss) ∈ state.receivedVssPublics →
      vss.verifyShare share.index share.value share.blinding state.pedersen = true) :
    state.processReceivedShare sender share =
      .ok { state with receivedShares := state.receivedShares ++ [(sender, share)] } := by
  unfold processReceivedShare
  split
  · rename_i entry hfind
    have hsender : entry.1 = sender := by simpa using List.find?_some hfind
    have hmem := List.mem_of_find?_eq_some hfind
    rw [← hsender] at h
    rw [if_neg (not_not.mpr (h entry.2 hmem))]
  · rfl

/-- When all received keys are from qualified parties, they are all counted. -/
theorem sumPublicKeys_eq {state : DkgState} {myPk : G2Point} (hown : state.myId ∈ state.qualSet)
    (hpk : state.myPublicKey = some myPk)
    (hqual : ∀ entry ∈ state.receivedPublicKeys, entry.1 ∈ state.qualSet) :
    state.sumPublicKeys = (myPk + (state.receivedPublicKeys.map Prod.snd).sum,
      1 + state.receivedPublicKeys.length) := by
  have hall : state.receivedPublicKeys.filter (fun entry => entry.1 ∈ state.qualSet) =
      state.receivedPublicKeys :=
    List.filter_eq_self.mpr fun entry hentry => by simpa using hqual entry hentry
  simp only [sumPublicKeys, if_pos hown, hpk, zero_add]
  rw [Accumulate.foldl_add_count_if
    (fun entry : ParticipantId × G2Point => entry.1 ∈ state.qualSet) Prod.snd, hall]

/-- When all received shares are from qualified parties, they are all added. -/
theorem computeSecretShare_eq {state : DkgState} {poly : PrivatePoly}
    (hown : state.myId ∈ state.qualSet) (hpoly : state.myVssPoly = some poly)
    (hqual : ∀ entry ∈ state.receivedShares, entry.1 ∈ state.qualSet) :
    state.computeSecretShare = some ((state.receivedShares.map fun entry => entry.2.value).sum +
      (poly.eval state.myId).value) := by
  have hall : state.receivedShares.filter (fun entry => entry.1 ∈ state.qualSet) =
      state.receivedShares :=
    List.filter_eq_self.mpr fun entry hentry => by simpa using hqual entry hentry
  simp only [computeSecretShare, if_pos hown, hpoly]
  rw [Accumulate.foldl_add_if (fun entry : ParticipantId × VssShare => entry.1 ∈ state.qualSet)
    (fun entry => entry.2.value), zero_add, hall]

/-- Without disqualifications everybody is qualified. -/
theorem qualSet_buildQualSet {state : DkgState} (h : state.disqualifications = []) :
    state.buildQualSet.qualSet = participants state.n := by
  simp only [buildQualSet, h]
  exact List.filter_eq_self.mpr fun _ _ => by simp

/-- The key material of a party that has heard from every other one. -/
theorem finalize_eq_ok {state : DkgState} {share : Scalar} {pk : G2Point}
    (hqual : state.buildQualSet.qualSet ≠ [])
    (hshares : state.buildQualSet.qualSet.length - 1 ≤
      (state.receivedShares.filter fun entry => entry.1 ∈ state.buildQualSet.qualSet).length)
    (hshare : state.buildQualSet.computeSecretShare = some share)
    (hpk : state.buildQualSet.computeCollectivePublicKey = some pk) :
    state.finalize = (.ok (state.buildQualSet.outputFor share pk),
      { state.buildQualSet with round := .complete }) := by
  have hsize : state.buildQualSet.qualSet.length ≠ 0 := by simpa using hqual
  have henough : ¬ (state.buildQualSet.receivedShares.filter fun entry =>
      entry.1 ∈ state.buildQualSet.qualSet).length < state.buildQualSet.qualSet.length - 1 :=
    not_lt.mpr hshares
  simp only [finalize, if_neg hsize, if_neg henough, hshare, hpk]

end DkgState

end Sigimora
