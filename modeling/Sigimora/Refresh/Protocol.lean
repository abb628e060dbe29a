import Sigimora.Crypto.Error
import Sigimora.Crypto.Participants
import Sigimora.Crypto.Pedersen

/-!
# Proactive refresh

The two implementations of the protocol: the state machine that one party runs,
and the manager that computes the refresh of all parties in one place. In both
a party deals a polynomial that vanishes at zero and adds the shares it is dealt
to its key. A call that fails leaves the state as it was.
-/

namespace Sigimora.Refresh

open Pedersen

/-- Errors in the refresh protocol. -/
inductive RefreshError
  | missingShare
  | verificationFailed (sender : ParticipantId)
  | invalidCommitment (message : String)
  | insufficientContributions (expected got : ℕ)
  | noKey
  | cryptoError (e : CryptoError)
  | mathError (e : MathError)
  deriving DecidableEq, Repr

instance : ToString RefreshError where
  toString
    | .missingShare => "missing share for party in contribution"
    | .verificationFailed sender => s!"contribution from party {sender} failed verification"
    | .invalidCommitment message => s!"invalid commitment: {message}"
    | .insufficientContributions expected got =>
      s!"insufficient contributions: expected {expected}, got {got}"
    | .noKey => "no key available"
    | .cryptoError e => s!"crypto error: {e}"
    | .mathError e => s!"math error: {e}"

variable [Curve]

/-- What one party deals in a refresh. -/
structure RefreshContribution where
  sender : ParticipantId
  epoch : UInt64
  vssPublic : VssPublic
  shares : List VssShare

/-- The phases of the protocol. -/
inductive RefreshRound
  | idle
  | committed
  | deltasVerified
  | complete
  deriving DecidableEq, Repr

/-- The state of one party. -/
structure RefreshState where
  epoch : UInt64
  n : ℕ
  t : ℕ
  myId : ParticipantId
  myKey : Option Scalar
  myPoly : Option PrivatePoly
  pedersen : PedersenSetup
  contributions : List RefreshContribution
  round : RefreshRound

namespace RefreshState

def new (epoch : UInt64) (myKey : Scalar) (n t : ℕ) (myId : ParticipantId)
    (pedersen : PedersenSetup) : RefreshState where
  epoch := epoch
  n := n
  t := t
  myId := myId
  myKey := some myKey
  myPoly := none
  pedersen := pedersen
  contributions := []
  round := .idle

/-- Draw the own polynomial. -/
def start (state : RefreshState) (coins : ℕ → Scalar) : RefreshState :=
  { state with
    myPoly := some (PrivatePoly.randomWithZeroConstant state.t state.pedersen coins)
    round := .idle }

/-- The contribution that is broadcast: a share for every party, the own one included. -/
def myContribution (state : RefreshState) : Option RefreshContribution :=
  state.myPoly.map fun poly =>
    { sender := state.myId
      epoch := state.epoch
      vssPublic := poly.commit
      shares := (participants state.n).map poly.eval }

/-- Check the own share of a contribution and that it shares zero. -/
def verifyContribution (state : RefreshState) (contrib : RefreshContribution) :
    Outcome RefreshError Unit :=
  match contrib.shares.filter fun s => s.index = state.myId with
  | [] => Outcome.fail .missingShare
  | share :: _ =>
    if ¬ contrib.vssPublic.verifyShare state.myId share.value share.blinding state.pedersen then
      Outcome.fail (.verificationFailed contrib.sender)
    else
      match contrib.vssPublic.commitments with
      | [] => Outcome.panic "index out of bounds: the len is 0 but the index is 0"
      | firstCommit :: _ =>
        if firstCommit ≠ 0 then
          Outcome.fail (.invalidCommitment "C_0 must be identity for zero-polynomial VSS")
        else .ok ()

/-- Record a contribution that verifies. -/
def addContribution (state : RefreshState) (contrib : RefreshContribution) :
    Outcome RefreshError RefreshState := do
  state.verifyContribution contrib
  return { state with
    contributions := state.contributions ++ [contrib]
    round := .committed }

def allContributionsReceived (state : RefreshState) : Outcome RefreshError Bool := do
  let expected ← Outcome.sub state.n 1
  return state.contributions.length == expected

/-- The share of a contribution for the party, added to the sum so far. -/
def addDelta (myId : ParticipantId) (deltaSum : Scalar) (contrib : RefreshContribution) :
    Scalar :=
  match contrib.shares.filter fun s => s.index = myId with
  | [] => deltaSum
  | share :: _ => deltaSum + share.value

/-- The key with the recorded shares added. -/
def computeNewKey (state : RefreshState) : Outcome RefreshError Scalar := do
  let expected ← Outcome.sub state.n 1
  if state.contributions.length < expected then
    Outcome.fail (.insufficientContributions expected state.contributions.length)
  else
    let deltaSum := state.contributions.foldl (addDelta state.myId) 0
    match state.myKey with
    | some currentKey => return currentKey + deltaSum
    | none => Outcome.fail .noKey

/-- Replace the key and forget the own polynomial. -/
def applyRefresh (state : RefreshState) (newKey : Scalar) : RefreshState :=
  { state with myKey := some newKey, myPoly := none, round := .complete }

end RefreshState

/-- The parameters of a refresh that is computed in one place. -/
structure RefreshManager where
  n : ℕ
  t : ℕ
  pedersen : PedersenSetup

namespace RefreshManager

def new (n t : ℕ) : RefreshManager where
  n := n
  t := t
  pedersen := PedersenSetup.deterministic

def generateContribution (manager : RefreshManager) (party : ParticipantId)
    (coins : ℕ → Scalar) : RefreshContribution :=
  let poly := PrivatePoly.randomWithZeroConstant manager.t manager.pedersen coins
  { sender := party
    epoch := 0
    vssPublic := poly.commit
    shares := (participants manager.n).map poly.eval }

/-- The share of a contribution for the party, added to the sum so far. -/
def addDelta (partyId : ParticipantId) (deltaSum : Scalar) (contrib : RefreshContribution) :
    Scalar :=
  match contrib.shares.find? fun s => s.index = partyId with
  | some share => deltaSum + share.value
  | none => deltaSum

/-- The key of a party with its shares of all contributions added. -/
def applyContributions (currentKey : Scalar) (partyId : ParticipantId)
    (contributions : List RefreshContribution) : Outcome RefreshError Scalar :=
  .ok (currentKey + contributions.foldl (addDelta partyId) 0)

/-- Whether the quorum's public keys combine to the same key before and after.
Ids without a key on both sides are left out of the combination. -/
def verifyCollectiveKeyInvariant {ε : Type} (oldPks newPks : List G2Point)
    (quorum : List ParticipantId) : Outcome ε Bool := do
  let lambdas ← Shamir.lagrangeAtZero quorum
  let sums ← (quorum.zip lambdas).foldlM
    (fun (acc : G2Point × G2Point) (entry : ParticipantId × Scalar) => do
      let pkIdx ← Outcome.sub entry.1.toNat 1
      match oldPks[pkIdx]?, newPks[pkIdx]? with
      | some oldPk, some newPk => return (acc.1 + entry.2 • oldPk, acc.2 + entry.2 • newPk)
      | _, _ => return acc) (0, 0)
  return sums.1 == sums.2

end RefreshManager

end Sigimora.Refresh
