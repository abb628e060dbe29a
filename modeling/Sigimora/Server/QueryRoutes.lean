import Sigimora.Server.TraceRoute

/-!
# Queries

The handlers that only read: the health check, and the listings of networks,
nodes and ledger entries with their pagination. Times are stored as text; a text
that is no time is answered with the current one, which is an argument.
-/

namespace Sigimora.Server

open Handler

/-- Reading a time, as `chrono` does, and its text in universal time. -/
class Rfc3339 where
  parse : String → Option String

/-- The stored time, or the current one if it cannot be read. -/
def storedTime [Rfc3339] (text now : String) : String := (Rfc3339.parse text).getD now

/-! ## Pagination -/

structure PaginationParams where
  offset? : Option ℕ
  limit? : Option ℕ

namespace PaginationParams

def offset (params : PaginationParams) : ℕ := params.offset?.getD 0

def limit (params : PaginationParams) : ℕ := min (params.limit?.getD 100) 1000

end PaginationParams

/-! ## Networks -/

section Networks

variable [Rfc3339]

/-- A stored network with the number of its nodes. -/
def networkInfo (row : NetworkRow) (nodeCount : ℕ) (now : String) : NetworkInfo where
  id := row.id
  n := row.n
  t := row.t
  f := row.f
  quorum := row.quorum
  collectivePkHex := row.collectivePk.map ByteString.hexEncode
  trackingPkHex := row.trackingPk.map ByteString.hexEncode
  state := row.state
  createdAt := storedTime row.createdAt now
  nodeCount := nodeCount

/-- `GET /api/v1/networks`: list all networks. -/
def listNetworks (now : ℕ → String) : Handler (List NetworkInfo) := do
  let rows ← query .listNetworks
  rows.zipIdx.mapM fun entry => do
    let nodeCount ← query (.countNodesByNetwork entry.1.id)
    return networkInfo entry.1 nodeCount (now entry.2)

/-- `GET /api/v1/networks/:id`: get network details. -/
def getNetwork (id now : String) : Handler NetworkInfo := do
  let row ← fetchNetwork id
  let nodeCount ← query (.countNodesByNetwork id)
  return networkInfo row nodeCount now

end Networks

/-- `GET /api/v1/networks/:id/dkg`: get DKG status. -/
def getDkgStatus (networkId : String) : Handler DkgStatusResponse := do
  let net ← fetchNetwork networkId
  let threshold ← lift (storedThreshold net)
  return {
    networkId
    state := net.state
    collectivePkHex := net.collectivePk.map ByteString.hexEncode
    memberCount := net.n
    threshold }

/-! ## Ledger -/

structure LedgerEntry where
  blockIndex : ℕ
  txId : String
  payloadHashHex : String
  signers : List ParticipantId
  epoch : ℕ
  timestamp : String
  signatureHex : String

structure LedgerResponse where
  entries : List LedgerEntry
  total : ℕ

/-- `GET /api/v1/networks/:id/ledger`: view the transaction ledger. -/
def getLedger [JsonIds] [Rfc3339] (networkId : String) (pagination : PaginationParams)
    (now : ℕ → String) : Handler LedgerResponse := do
  let _net ← fetchNetwork networkId
  let rows ← query (.getLedgerByNetwork networkId pagination.offset pagination.limit)
  let total ← query (.countLedgerByNetwork networkId)
  let entries := rows.zipIdx.map fun entry =>
    { blockIndex := entry.1.blockIndex
      txId := entry.1.txId
      payloadHashHex := ByteString.hexEncode entry.1.messageHash
      signers := (JsonIds.fromStr entry.1.signers).getD []
      epoch := entry.1.epoch
      timestamp := storedTime entry.1.createdAt (now entry.2)
      signatureHex := (entry.1.signature.map ByteString.hexEncode).getD "" }
  return { entries, total }

/-! ## Nodes -/

structure NodeInfo where
  nodeId : ParticipantId
  networkId : String
  publicKeyHex : String
  addressHex : String
  companyName : Option String
  createdAt : String
  epoch : ℕ
  isSigner : Bool

structure PaginatedNodesResponse where
  nodes : List NodeInfo
  total : ℕ
  offset : ℕ
  limit : ℕ

section Nodes

variable [Curve] [Rfc3339]

/-- A stored node; its address is the beginning of a hash of its key. -/
def nodeInfo (networkId : String) (row : NodeRow) (now : String) : NodeInfo where
  nodeId := UInt16.ofNat row.nodeId
  networkId := networkId
  publicKeyHex := ByteString.hexEncode row.publicKey
  addressHex := ByteString.hexEncode
    ((hashToG1 row.publicKey (byteLiteral "SIGIMORA-ADDR")).toBytes.take 20)
  companyName := row.companyName
  createdAt := storedTime row.createdAt now
  epoch := row.epoch
  isSigner := true

/-- `GET /api/v1/networks/:id/nodes`: list nodes in a network. -/
def listNodes (networkId : String) (pagination : PaginationParams) (now : ℕ → String) :
    Handler PaginatedNodesResponse := do
  let _net ← fetchNetwork networkId
  let total ← query (.countNodesByNetwork networkId)
  let rows ← query (.getNodesByNetworkPaginated networkId pagination.offset pagination.limit)
  return {
    nodes := rows.zipIdx.map fun entry => nodeInfo networkId entry.1 (now entry.2)
    total
    offset := pagination.offset
    limit := pagination.limit }

/-- `GET /api/v1/networks/:id/nodes/:node_id`: get a specific node. -/
def getNode (networkId : String) (nodeId : ParticipantId) (now : String) : Handler NodeInfo := do
  let row ← query (.getNode networkId nodeId)
  let row ← lift (Outcome.okOr (.notFound s!"node {nodeId} not found in network") row)
  return nodeInfo networkId row now

end Nodes

/-! ## Health -/

structure HealthResponse where
  status : String
  version : String
  uptimeSeconds : ℕ
  uptimeHuman : String
  networks : ℕ
  nodes : ℕ
  ledgerEntries : ℕ
  apiKeys : ℕ
  dbStatus : String
  cacheAgeSecs : Option ℕ
  cryptoBackend : String

/-- A human-readable uptime. -/
def uptimeHuman (elapsed : ℕ) : String :=
  let days := elapsed / 86400
  let hours := elapsed % 86400 / 3600
  let mins := elapsed % 3600 / 60
  let secs := elapsed % 60
  if days > 0 then s!"{days}d {hours}h {mins}m {secs}s"
  else if hours > 0 then s!"{hours}h {mins}m {secs}s"
  else if mins > 0 then s!"{mins}m {secs}s"
  else s!"{secs}s"

/-- Whether the database answers at all. -/
def connectivity : Handler String :=
  .call .selectOne fun reply =>
    match reply with
    | .ok _ => .finish (.ok "connected")
    | .error e => .finish (.ok s!"error: {e}")

/-- `GET /api/v1/health`: health check, the clock being read at its start and its end. -/
def healthCheck (elapsed elapsedAtEnd : ℕ) : Handler HealthResponse := do
  let dbStatus ← connectivity
  let networks ← query .countNetworks
  let nodes ← query .countAllNodes
  let ledgerEntries ← query .countAllLedgerEntries
  let apiKeys ← query .countApiKeys
  return {
    status := "ok"
    version := "0.1.0"
    uptimeSeconds := elapsed
    uptimeHuman := uptimeHuman elapsedAtEnd
    networks
    nodes
    ledgerEntries
    apiKeys
    dbStatus
    cacheAgeSecs := none
    cryptoBackend := "BLS12-381 (blstrs/blst) + Pedersen DKG + ATS" }

end Sigimora.Server
