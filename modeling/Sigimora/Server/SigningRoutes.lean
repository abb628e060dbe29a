import Sigimora.Server.Routes

/-!
# Signing requests

The handlers that sign one message or a batch of messages with a requested
quorum, and the handler that verifies a signature. A signer reads the row of
the network and the rows of its nodes in two statements; everything that it
signs with comes from these rows.
-/

namespace Sigimora.Server

open Handler Ats

variable [Curve]

/-! ## Stored keys -/

/-- The collective key of the row; the text for undecodable bytes is the caller's. -/
def decodeCollectivePk (invalid : String) (net : NetworkRow) : Outcome ApiError G2Point := do
  let bytes ← Outcome.okOr (.badRequest "collective PK not available — run DKG first")
    net.collectivePk
  if bytes.length ≠ G2Point.byteSize then
    Outcome.fail (.internal s!"collective PK has invalid length {bytes.length}")
  else
    Outcome.mapErr (fun _ => ApiError.crypto invalid) (G2Point.fromBytes bytes)

def decodeTrackingPk (net : NetworkRow) : Outcome ApiError G2Point := do
  let bytes ← Outcome.okOr (.internal "tracking PK missing") net.trackingPk
  if bytes.length ≠ G2Point.byteSize then
    Outcome.fail (.internal s!"tracking PK has invalid length {bytes.length}")
  else
    Outcome.mapErr (fun _ => ApiError.crypto "invalid tracking PK bytes") (G2Point.fromBytes bytes)

def decodeNodePk (row : NodeRow) : Outcome ApiError G2Point :=
  if row.publicKey.length ≠ G2Point.byteSize then
    Outcome.fail (.internal
      s!"node {UInt16.ofNat row.nodeId} PK has invalid length {row.publicKey.length}")
  else
    Outcome.mapErr (fun _ => ApiError.crypto "invalid node PK") (G2Point.fromBytes row.publicKey)

/-- The key share of a node, as the signing handlers decode it. -/
def decodeKeyShare (row : NodeRow) : Outcome ApiError Scalar :=
  if row.secretKey.length ≠ Scalar.byteSize then
    Outcome.fail (.internal (s!"node {row.nodeId} secret key has invalid length " ++
      s!"{row.secretKey.length} (expected 32)"))
  else
    Outcome.mapErr (fun _ => ApiError.crypto "invalid node secret key")
      (Scalar.fromBytes row.secretKey)

/-- The public key and the signing keys of one node. -/
structure Member where
  id : ParticipantId
  pk : G2Point
  config : SignerConfig

/-- Decode one node and give it a fresh long-term key. -/
def loadMember (row : NodeRow) (ltSk : Scalar) : Outcome ApiError Member := do
  let id := UInt16.ofNat row.nodeId
  let pk ← decodeNodePk row
  let dkgShare ← decodeKeyShare row
  return { id, pk, config := SignerConfig.new id dkgShare ltSk }

/-- The random draws of one signed message. -/
structure MessageDraws where
  tag : ℕ → TagCoins
  txId : String
  ledgerCreatedAt : String
  txCreatedAt : String

/-- The public parameters and the members of a network, from its stored rows. -/
def buildParams (net : NetworkRow) (rows : List NodeRow) (ltSks : ℕ → Scalar) :
    Outcome ApiError (NetworkPublicParams × List Member) := do
  let collectivePk ← decodeCollectivePk "invalid collective PK bytes" net
  let trackingPk ← decodeTrackingPk net
  let members ← rows.zipIdx.mapM fun entry => loadMember entry.1 (ltSks entry.2)
  return ({
    n := net.n
    threshold := net.t + 1
    collectivePk
    trackingPk
    memberPks := members.map fun m => (m.id, m.pk)
    memberLtPks := members.map fun m => (m.id, m.config.ltPk) }, members)

/-- The requested signers that are in the network, in the order of the request. -/
def selectQuorum (t : ℕ) (quorum : List ParticipantId) (members : List Member) :
    Outcome ApiError (List SignerConfig) :=
  let found := quorum.filterMap fun qid =>
    (members.find? fun m => m.id = qid).map Member.config
  if found.length < t + 1 then
    Outcome.fail (.badRequest
      s!"only {found.length} of {quorum.length} requested signers found in network")
  else .ok found

/-- The request body's message as bytes. -/
def decodeMessage (describe : ByteString.FromHexError → String) (message : String) :
    Outcome ApiError (List UInt8) :=
  match ByteString.hexDecode message with
  | .ok msg => .ok msg
  | .error e => Outcome.fail (.badRequest (describe e))

/-- Sign the message with every selected signer and aggregate. -/
def signWithQuorum [Cipher] (params : NetworkPublicParams) (signers : List SignerConfig)
    (quorum : List ParticipantId) (msg : List UInt8) (tagDraws : ℕ → TagCoins) :
    Outcome ApiError AtsSignature := do
  let partials := signers.zipIdx.map fun entry =>
    signPartial entry.1 msg params.trackingPk (tagDraws entry.2)
  let aggregatorId ← Outcome.index quorum 0
  Outcome.mapErr ApiError.ofAts (aggregate partials params 0 aggregatorId)

/-! ## Records -/

/-- A list of ids as JSON. -/
def quorumJson (quorum : List ParticipantId) : String :=
  "[" ++ ",".intercalate (quorum.map fun id => s!"{id}") ++ "]"

/-- Reading a list of ids from JSON, as `serde_json` does; a text that is none has no value. -/
class JsonIds where
  fromStr : String → Option (List ParticipantId)

def ledgerRow (networkId : String) (quorum : List ParticipantId) (msg : List UInt8)
    (sig : AtsSignature) (draws : MessageDraws) : LedgerRow where
  blockIndex := 0
  txId := draws.txId
  networkId := networkId
  messageHash := (hashMessage msg).toBytes
  signature := some sig.combinedSig.toBytes
  signers := quorumJson quorum
  epoch := 0
  createdAt := draws.ledgerCreatedAt

def signedTxRow (networkId : String) (quorum : List ParticipantId) (msg : List UInt8)
    (sig : AtsSignature) (draws : MessageDraws) : SignedTxRow where
  txId := draws.txId
  networkId := networkId
  message := msg
  signature := sig.combinedSig.toBytes
  quorum := quorumJson quorum
  createdAt := draws.txCreatedAt

/-- Store a signature in the ledger and as a signed transaction. -/
def recordSignature (networkId : String) (quorum : List ParticipantId) (msg : List UInt8)
    (sig : AtsSignature) (draws : MessageDraws) : Handler Unit := do
  query (.insertLedgerEntry (ledgerRow networkId quorum msg sig draws))
  query (.insertSignedTx (signedTxRow networkId quorum msg sig draws))

/-! ## Handlers -/

/-- The checks that both signing handlers make on the row of the network. -/
def checkSignable (net : NetworkRow) (quorum : List ParticipantId) : Outcome ApiError Unit :=
  if net.state ≠ "dkg_complete" then
    Outcome.fail (.badRequest s!"network is in state {net.state.quote}, need 'dkg_complete'")
  else if quorum.length < net.t + 1 then
    Outcome.fail (.badRequest s!"quorum size {quorum.length} < threshold {net.t + 1}")
  else .ok ()

structure SignRequest where
  message : String
  quorum : List ParticipantId

/-- The random draws of `signMessage`. -/
structure SignDraws where
  ltSks : ℕ → Scalar
  message : MessageDraws

structure SignResponse where
  txId : String
  combinedSigHex : String
  quorum : List ParticipantId
  messageHashHex : String

/-- `POST /api/v1/networks/:id/sign`: threshold-sign a message. -/
def signMessage [Cipher] (networkId : String) (req : SignRequest) (draws : SignDraws) :
    Handler SignResponse := do
  let net ← fetchNetwork networkId
  lift (checkSignable net req.quorum)
  let msg ← lift (decodeMessage (fun e => s!"invalid hex message: {e}") req.message)
  let rows ← loadNodes networkId net.n
  let (params, members) ← lift (buildParams net rows draws.ltSks)
  let signers ← lift (selectQuorum net.t req.quorum members)
  let sig ← lift (signWithQuorum params signers req.quorum msg draws.message.tag)
  recordSignature networkId req.quorum msg sig draws.message
  return {
    txId := draws.message.txId
    combinedSigHex := ByteString.hexEncode sig.combinedSig.toBytes
    quorum := req.quorum
    messageHashHex := ByteString.hexEncode (hashMessage msg).toBytes }

structure BatchSignRequest where
  messages : List String
  quorum : List ParticipantId

/-- The random draws of `batchSign`, those of the messages by their position. -/
structure BatchDraws where
  ltSks : ℕ → Scalar
  message : ℕ → MessageDraws

structure BatchSignEntry where
  messageHex : String
  txId : String
  combinedSigHex : String
  messageHashHex : String

structure BatchSignResponse where
  networkId : String
  quorum : List ParticipantId
  count : ℕ
  signatures : List BatchSignEntry

/-- Sign and record one message of a batch. -/
def signBatchEntry [Cipher] (networkId : String) (quorum : List ParticipantId)
    (params : NetworkPublicParams) (signers : List SignerConfig) (draws : ℕ → MessageDraws)
    (entry : String × ℕ) : Handler BatchSignEntry := do
  let msg ← lift (decodeMessage (fun e => s!"invalid hex message '{entry.1}': {e}") entry.1)
  let sig ← lift (signWithQuorum params signers quorum msg (draws entry.2).tag)
  recordSignature networkId quorum msg sig (draws entry.2)
  return {
    messageHex := entry.1
    txId := (draws entry.2).txId
    combinedSigHex := ByteString.hexEncode sig.combinedSig.toBytes
    messageHashHex := ByteString.hexEncode (hashMessage msg).toBytes }

/-- `POST /api/v1/networks/:id/batch-sign`: threshold-sign multiple messages. -/
def batchSign [Cipher] (networkId : String) (req : BatchSignRequest) (draws : BatchDraws) :
    Handler BatchSignResponse := do
  if req.messages.isEmpty then fail (.badRequest "messages list must not be empty")
  else if req.messages.length > 100 then
    fail (.badRequest "maximum 100 messages per batch request")
  else
    let net ← fetchNetwork networkId
    lift (checkSignable net req.quorum)
    let rows ← loadNodes networkId net.n
    let (params, members) ← lift (buildParams net rows draws.ltSks)
    let signers ← lift (selectQuorum net.t req.quorum members)
    let signatures ← req.messages.zipIdx.mapM
      (signBatchEntry networkId req.quorum params signers draws.message)
    return { networkId, quorum := req.quorum, count := signatures.length, signatures }

structure VerifyRequest where
  message : String
  signatureHex : String

structure VerifyResponse where
  valid : Bool
  networkId : String
  deriving DecidableEq

/-- The point of a submitted signature. -/
def decodeSignature (signatureHex : String) : Outcome ApiError G1Point := do
  let bytes ← decodeMessage (fun e => s!"invalid hex signature: {e}") signatureHex
  if bytes.length ≠ G1Point.byteSize then
    Outcome.fail (.badRequest (s!"signature must be {G1Point.byteSize} bytes " ++
      s!"({G1Point.byteSize * 2} hex chars), got {bytes.length} bytes"))
  else
    Outcome.mapErr (fun _ => ApiError.crypto "invalid signature point") (G1Point.fromBytes bytes)

/-- `POST /api/v1/networks/:id/verify`: verify a threshold signature. -/
def verifySignature (networkId : String) (req : VerifyRequest) : Handler VerifyResponse := do
  let net ← fetchNetwork networkId
  let collectivePk ← lift (decodeCollectivePk "invalid collective PK" net)
  let msg ← lift (decodeMessage (fun e => s!"invalid hex message: {e}") req.message)
  let sig ← lift (decodeSignature req.signatureHex)
  return { valid := ctVerifyBlsSignature sig (hashMessage msg) collectivePk, networkId }

end Sigimora.Server
