import Sigimora.Crypto.DkgRun
import Sigimora.Refresh.Protocol
import Sigimora.Server.Database

/-!
# Key management requests

The handlers that create a network, run the key generation on it and refresh
its keys. Each is a program over the database: it reads the rows it needs,
computes, and writes back row by row, with no transaction around the
statements. Random draws, fresh identifiers and the clock are arguments.
-/

namespace Sigimora.Server

/-- A request handler; it may panic. -/
abbrev Handler (α : Type) : Type := Program Reply (Fault ApiError) α

namespace Handler

variable {α : Type}

/-- Execute one statement; `?` passes its error on. -/
def query (s : Stmt) : Handler s.Value :=
  .call s fun reply =>
    match reply with
    | .ok value => .finish (.ok value)
    | .error e => .finish (.error (.err (.database e)))

/-- A computation without statements. -/
def lift (result : Outcome ApiError α) : Handler α := .finish result

/-- Answer with an error. -/
def fail (e : ApiError) : Handler α := lift (Outcome.fail e)

end Handler

open Handler

/-- The row of the network, or the answer that there is none. -/
def fetchNetwork (networkId : String) : Handler NetworkRow := do
  let row ← query (.getNetwork networkId)
  lift (Outcome.okOr (.notFound s!"network {networkId} not found") row)

/-- `net_row.t + 1`, an addition in `i64` that is checked for overflows. -/
def storedThreshold (net : NetworkRow) : Outcome ApiError ℕ :=
  if net.t = 2 ^ 63 - 1 then Outcome.panic "attempt to add with overflow" else return net.t + 1

/-- All nodes of the network, which must be as many as the network says. -/
def loadNodes (networkId : String) (n : ℕ) : Handler (List NodeRow) := do
  let rows ← query (.getNodesByNetwork networkId)
  if rows.length ≠ n then
    fail (.internal s!"expected {n} nodes, found {rows.length}")
  else return rows

variable [Curve]

/-! ## Creating a network -/

section ApiKeys

/-- The characters of the random part of a key. -/
def apiKeyAlphabet : List Char :=
  "ABCDEFGHIJKLMNOPQRSTUVWXYZabcdefghijklmnopqrstuvwxyz0123456789".toList

/-- Hash an API key for storage. -/
def sha256Hex (key : String) : String :=
  ByteString.hexEncode (Curve.sha256 (ByteString.utf8Bytes key))

/-- The draws for an API key. -/
structure ApiKeyDraws where
  entropy : List UInt8
  id : String
  createdAt : String

/-- A new key and the row that stores its hash. -/
def generateApiKey (label role : String) (draws : ApiKeyDraws) : String × ApiKeyRow :=
  let suffix := draws.entropy.map fun b => apiKeyAlphabet.getD (b.toNat % 62) 'A'
  let rawKey := "sigimora_" ++ String.ofList suffix
  (rawKey, {
    id := draws.id
    keyHash := sha256Hex rawKey
    keyPrefix := String.ofList (rawKey.toList.take 16)
    label
    role
    createdAt := draws.createdAt
    lastUsedAt := none })

end ApiKeys

structure CreateNetworkRequest where
  n : ℕ
  t : ℕ

structure NetworkInfo where
  id : String
  n : ℕ
  t : ℕ
  f : ℕ
  quorum : ℕ
  collectivePkHex : Option String
  trackingPkHex : Option String
  state : String
  createdAt : String
  nodeCount : ℕ

structure CreateNetworkResponse where
  network : NetworkInfo
  trackingSecretKeyHex : String
  bootstrapApiKey : String

/-- The draws of `createNetwork`: the UUID, the secrets, the API key, and the clock. -/
structure CreationDraws where
  networkId : String
  trackingSecret : Scalar
  nodeSecret : ParticipantId → Scalar
  apiKey : ApiKeyDraws
  networkCreatedAt : String
  nodeCreatedAt : ParticipantId → String
  infoCreatedAt : String

/-- The row of a new node. -/
def newNode (draws : CreationDraws) (nodeId : ParticipantId) : NodeRow :=
  let nodeSk := draws.nodeSecret nodeId
  let nodePk := nodeSk • G2Point.generator
  { id := 0
    nodeId := nodeId.toNat
    networkId := draws.networkId
    publicKey := nodePk.toBytes
    secretKey := nodeSk.toBytes
    companyName := some s!"Node {nodeId}"
    epoch := 0
    createdAt := draws.nodeCreatedAt nodeId }

/-- The row of a new network. -/
def newNetwork (req : CreateNetworkRequest) (draws : CreationDraws) : NetworkRow :=
  let tracking := Ats.TrackingKeyPair.fromSecret draws.trackingSecret
  { id := draws.networkId
    n := req.n
    t := req.t
    f := (req.n - 1) / 3
    quorum := req.t + 1
    collectivePk := none
    trackingPk := some tracking.publicKey.toBytes
    trackingSk := some tracking.secret.toBytes
    state := "created"
    createdAt := draws.networkCreatedAt }

/-- `POST /api/v1/networks`: create a new signing network. -/
def createNetwork (req : CreateNetworkRequest) (draws : CreationDraws) :
    Handler CreateNetworkResponse := do
  if req.n < 2 then fail (.badRequest "n must be >= 2")
  else if req.t = 0 ∨ req.t ≥ req.n then fail (.badRequest "t must be between 1 and n-1")
  else
    let tracking := Ats.TrackingKeyPair.fromSecret draws.trackingSecret
    query (.insertNetwork (newNetwork req draws))
    (participants req.n).forM fun nodeId => query (.insertNode (newNode draws nodeId))
    let label := "network-" ++ String.ofList (draws.networkId.toList.take 8)
    let (rawKey, keyRow) := generateApiKey label "admin" draws.apiKey
    query (.insertApiKey keyRow)
    return {
      network := {
        id := draws.networkId
        n := req.n
        t := req.t
        f := (req.n - 1) / 3
        quorum := req.t + 1
        collectivePkHex := none
        trackingPkHex := some (ByteString.hexEncode tracking.publicKey.toBytes)
        state := "created"
        createdAt := draws.infoCreatedAt
        nodeCount := req.n }
      trackingSecretKeyHex := ByteString.hexEncode tracking.secret.toBytes
      bootstrapApiKey := rawKey }

/-! ## Key generation -/

/-- The draws of the parties of a key generation or a refresh. -/
abbrev PartyDraws := ParticipantId → ℕ → Scalar

/-- Create and start the states of all nodes. -/
def startStates (n t : ℕ) (coins : PartyDraws) : Outcome ApiError (List DkgState) :=
  (List.range n).mapM fun i => do
    let id := UInt16.ofNat (i + 1)
    let state ← DkgState.new n t id Pedersen.PedersenSetup.deterministic
    return state.start (coins id)

/-- The index pairs `i != j` in the order of the two nested loops. -/
def indexPairs (n : ℕ) : List (ℕ × ℕ) :=
  ((List.range n).product (List.range n)).filter fun pair => pair.1 ≠ pair.2

/-- Hand the commitments of one state to another. -/
def commitStep (pks : List G2Point) (pops : List G1Point) (vssList : List Pedersen.VssPublic)
    (states : List DkgState) (pair : ℕ × ℕ) : Outcome ApiError (List DkgState) := do
  let pk ← Outcome.index pks pair.1
  let pop ← Outcome.index pops pair.1
  let vss ← Outcome.index vssList pair.1
  let receiver ← Outcome.index states pair.2
  let state ← Outcome.mapErr (fun e => ApiError.crypto s!"DKG commit processing: {e}")
    (receiver.processParticipantCommit (UInt16.ofNat (pair.1 + 1)) pk pop vss)
  return states.set pair.2 state

/-- Hand a share of one state to another. -/
def shareStep (states : List DkgState) (pair : ℕ × ℕ) : Outcome ApiError (List DkgState) := do
  let sender ← Outcome.index states pair.1
  let share ← Outcome.okOr (ApiError.crypto s!"DKG share generation for node {pair.2 + 1}")
    (sender.sharesFor (UInt16.ofNat (pair.2 + 1)))
  let receiver ← Outcome.index states pair.2
  let state ← Outcome.mapErr (fun e => ApiError.crypto s!"DKG share processing: {e}")
    (receiver.processReceivedShare (UInt16.ofNat (pair.1 + 1)) share)
  return states.set pair.2 state

/-- The Pedersen key generation across all nodes, in memory. -/
def dkgOutputs (n t : ℕ) (coins : PartyDraws) : Outcome ApiError (List DkgOutput) := do
  let states ← startStates n t coins
  let pks ← states.mapM fun s => Outcome.unwrap s.myPublicKey
  let pops ← states.mapM fun s => Outcome.unwrap s.myPop
  let vssList ← states.mapM fun s => Outcome.unwrap s.myVssPublic
  let states ← (indexPairs n).foldlM (commitStep pks pops vssList) states
  let states ← (indexPairs n).foldlM shareStep states
  states.mapM fun s =>
    Outcome.mapErr (fun e => ApiError.crypto s!"DKG finalize: {e}") s.finalize.1

structure DkgStatusResponse where
  networkId : String
  state : String
  collectivePkHex : Option String
  memberCount : ℕ
  threshold : ℕ

/-- `POST /api/v1/networks/:id/dkg`: run the key generation for all nodes. -/
def runDkg (networkId : String) (coins : PartyDraws) : Handler DkgStatusResponse := do
  let net ← fetchNetwork networkId
  if net.state ≠ "created" ∧ net.state ≠ "dkg_complete" then
    fail (.badRequest
      s!"network is in state {net.state.quote}, expected 'created' or 'dkg_complete'")
  else
    let _ ← loadNodes networkId net.n
    let outputs ← lift (dkgOutputs net.n net.t coins)
    let first ← lift (Outcome.index outputs 0)
    let collectivePkBytes := first.collectivePk.toBytes
    outputs.zipIdx.forM fun entry => query
      (.updateNodeSecret networkId (UInt16.ofNat (entry.2 + 1)) entry.1.mySecret.toBytes)
    query (.updateNetworkState networkId "dkg_complete" (some collectivePkBytes))
    return {
      networkId
      state := "dkg_complete"
      collectivePkHex := some (ByteString.hexEncode collectivePkBytes)
      memberCount := net.n
      threshold := net.t + 1 }

/-! ## Refresh -/

/-- The secret key of a node, which must be an encoded scalar. -/
def decodeSecretKey (row : NodeRow) : Outcome ApiError Scalar :=
  if row.secretKey.length ≠ Scalar.byteSize then
    Outcome.fail (.internal
      s!"node {row.nodeId} secret key has invalid length {row.secretKey.length}")
  else
    Outcome.mapErr (fun _ => ApiError.crypto "invalid secret key") (Scalar.fromBytes row.secretKey)

/-- The keys of all nodes before and after a refresh, in memory. -/
def refreshedKeys (n t : ℕ) (coins : PartyDraws) (rows : List NodeRow) :
    Outcome ApiError (List Scalar × List Scalar) := do
  let currentKeys ← rows.mapM decodeSecretKey
  let manager := Refresh.RefreshManager.new n t
  let contributions := (participants n).map fun i => manager.generateContribution i (coins i)
  let keysAfter ← currentKeys.zipIdx.mapM fun entry =>
    Outcome.mapErr (fun e => ApiError.crypto s!"refresh apply: {e}")
      (Refresh.RefreshManager.applyContributions entry.1 (UInt16.ofNat (entry.2 + 1))
        contributions)
  return (currentKeys, keysAfter)

/-- Whether the first `t + 1` public keys combine to the same key before and after. -/
def refreshInvariant (n t : ℕ) (keys : List Scalar × List Scalar) : Outcome ApiError Bool :=
  let pksBefore := keys.1.map fun k => k • (G2Point.generator : G2Point)
  let pksAfter := keys.2.map fun k => k • (G2Point.generator : G2Point)
  let quorum := (participants n).take (t + 1)
  Refresh.RefreshManager.verifyCollectiveKeyInvariant pksBefore pksAfter quorum

structure RefreshResponse where
  networkId : String
  epoch : ℕ
  invariantPreserved : Bool
  message : String

/-- `POST /api/v1/networks/:id/refresh`: trigger a proactive key refresh. -/
def refreshNetwork (networkId : String) (coins : PartyDraws) : Handler RefreshResponse := do
  let net ← fetchNetwork networkId
  if net.state ≠ "dkg_complete" then
    fail (.badRequest s!"network is in state {net.state.quote}, need 'dkg_complete'")
  else
    let rows ← loadNodes networkId net.n
    let keys ← lift (refreshedKeys net.n net.t coins rows)
    let invariant ← lift (refreshInvariant net.n net.t keys)
    let epoch := (rows.head?.map NodeRow.epoch).getD 0 + 1
    rows.zipIdx.forM fun entry => do
      let key ← lift (Outcome.index keys.2 entry.2)
      query (.updateNodeSecret networkId (UInt16.ofNat entry.1.nodeId) key.toBytes)
      query (.updateNodeEpoch entry.1.id epoch)
    return {
      networkId
      epoch
      invariantPreserved := invariant
      message :=
        s!"Proactive refresh complete. Collective key invariant preserved: {invariant}" }

end Sigimora.Server
