import Sigimora.Server.Quorum
import Sigimora.Server.StoredKeys

/-!
# Tracing requests

The handler that names the signers of a stored transaction. It decodes the key
in the request, the rows of the network and the row of the transaction, and then
answers with the recorded quorum: the key takes no part in the answer, and
neither does the network that the transaction was signed in.
-/

namespace Sigimora.Server

open Handler Program

structure TraceRequest where
  txId : String
  trackingKeyHex : String

structure SignerInfo where
  nodeId : ParticipantId
  publicKeyHex : String
  timestamp : Option String

structure TraceResponse where
  signers : List SignerInfo

/-! ## The handler -/

/-- The tracking key of the request. -/
def decodeTrackingKey (trackingKeyHex : String) : Outcome ApiError Scalar := do
  let bytes ← decodeMessage (fun e => s!"invalid tracking key hex: {e}") trackingKeyHex
  if bytes.length ≠ Scalar.byteSize then
    Outcome.fail (.badRequest s!"tracking key must be 32 bytes, got {bytes.length}")
  else
    Outcome.mapErr (fun _ => ApiError.crypto "invalid tracking secret key")
      (Scalar.fromBytes bytes)

/-- The row of the transaction, or the answer that there is none. -/
def fetchSignedTx (txId : String) : Handler SignedTxRow := do
  let row ← query (.getSignedTx txId)
  lift (Outcome.okOr (.notFound s!"tx {txId} not found") row)

/-- The quorum that was recorded with a transaction. -/
def recordedQuorum [JsonIds] (tx : SignedTxRow) : List ParticipantId :=
  (JsonIds.fromStr tx.quorum).getD []

variable [Curve]

def decodeStoredSignature (tx : SignedTxRow) : Outcome ApiError G1Point :=
  if tx.signature.length ≠ G1Point.byteSize then
    Outcome.fail (.internal s!"stored signature has invalid length {tx.signature.length}")
  else
    Outcome.mapErr (fun _ => ApiError.crypto "invalid stored signature")
      (G1Point.fromBytes tx.signature)

/-- A stored public key; `owner` is its name in the texts of the errors. -/
def decodeStoredPk (owner invalid : String) (bytes : List UInt8) : Outcome ApiError G2Point :=
  if bytes.length ≠ G2Point.byteSize then
    Outcome.fail (.internal s!"{owner} PK has invalid length {bytes.length}")
  else
    Outcome.mapErr (fun _ => ApiError.crypto invalid) (G2Point.fromBytes bytes)

/-- The keys of the network, which a trace decodes and does not use. -/
def decodeNetworkPks (net : NetworkRow) : Outcome ApiError (G2Point × G2Point) := do
  let collectivePkBytes ← Outcome.okOr (.badRequest "collective PK not available")
    net.collectivePk
  let collectivePk ← decodeStoredPk "collective" "invalid collective PK" collectivePkBytes
  let trackingPkBytes ← Outcome.okOr (.internal "tracking PK missing") net.trackingPk
  let trackingPk ← decodeStoredPk "tracking" "invalid tracking PK" trackingPkBytes
  return (collectivePk, trackingPk)

/-- The id and the key of a node. -/
def decodeMemberPk (row : NodeRow) : Outcome ApiError (ParticipantId × G2Point) := do
  let pk ← decodeStoredPk s!"node {row.nodeId}" "invalid node PK" row.publicKey
  return (UInt16.ofNat row.nodeId, pk)

/-- The listed ids that are members, with the keys of these members. -/
def listedSigners (quorum : List ParticipantId) (memberPks : List (ParticipantId × G2Point)) :
    List SignerInfo :=
  quorum.filterMap fun id => (memberPks.find? fun m => m.1 = id).map fun m =>
    { nodeId := id, publicKeyHex := ByteString.hexEncode m.2.toBytes, timestamp := none }

/-- `POST /api/v1/networks/:id/trace`: trace the signers of a transaction. -/
def traceSigners [JsonIds] (networkId : String) (req : TraceRequest) : Handler TraceResponse := do
  let net ← fetchNetwork networkId
  let _trackingSk ← lift (decodeTrackingKey req.trackingKeyHex)
  let tx ← fetchSignedTx req.txId
  let _combinedSig ← lift (decodeStoredSignature tx)
  let _pks ← lift (decodeNetworkPks net)
  let rows ← query (.getNodesByNetwork networkId)
  let memberPks ← lift (rows.mapM decodeMemberPk)
  let _threshold ← lift (storedThreshold net)
  return { signers := listedSigners (recordedQuorum tx) memberPks }

/-! ## What an answer depends on -/

section Answers

variable [JsonIds] {db db' : Db} {networkId : String} {req : TraceRequest} {net : NetworkRow}
  {key : Scalar} {tx : SignedTxRow} {memberPks : List (ParticipantId × G2Point)}

/-- What a trace reads, with all of its checks passed. -/
structure TraceReads (db : Db) (networkId : String) (req : TraceRequest) (net : NetworkRow)
    (key : Scalar) (tx : SignedTxRow) (memberPks : List (ParticipantId × G2Point)) : Prop where
  network : db.getNetwork networkId = some net
  trackingKey : decodeTrackingKey req.trackingKeyHex = .ok key
  signedTx : db.getSignedTx req.txId = some tx
  signature : ∃ sig, decodeStoredSignature tx = .ok sig
  networkPks : ∃ pks, decodeNetworkPks net = .ok pks
  members : (db.getNodesByNetwork networkId).mapM decodeMemberPk = .ok memberPks
  threshold : ∃ threshold, storedThreshold net = .ok threshold

omit [Curve] [JsonIds] in
/-- A transaction is fetched just if it is recorded. -/
theorem run_fetchSignedTx_eq_ok {txId : String} :
    (fetchSignedTx txId).run exec db = (.ok tx, db') ↔
      db.getSignedTx txId = some tx ∧ db = db' := by
  have hrun : (fetchSignedTx txId).run exec db =
      (Outcome.okOr (.notFound s!"tx {txId} not found") (db.getSignedTx txId), db) := rfl
  rw [hrun, Prod.mk.injEq, Outcome.okOr_eq_ok]

/-- A trace answers with the members that the transaction lists. -/
theorem run_traceSigners_eq_ok {response : TraceResponse} :
    (traceSigners networkId req).run exec db = (.ok response, db') ↔
      db = db' ∧ ∃ net key tx memberPks, TraceReads db networkId req net key tx memberPks ∧
        response = ⟨listedSigners (recordedQuorum tx) memberPks⟩ := by
  constructor
  · intro h
    obtain ⟨net, _, hfetch, h⟩ := run_bind_eq_ok.mp h
    obtain ⟨hnet, rfl⟩ := run_fetchNetwork_eq_ok.mp hfetch
    obtain ⟨key, hkey, h⟩ := run_lift_bind_eq_ok.mp h
    obtain ⟨tx, _, hfetch, h⟩ := run_bind_eq_ok.mp h
    obtain ⟨htx, rfl⟩ := run_fetchSignedTx_eq_ok.mp hfetch
    obtain ⟨sig, hsig, h⟩ := run_lift_bind_eq_ok.mp h
    obtain ⟨pks, hpks, h⟩ := run_lift_bind_eq_ok.mp h
    obtain ⟨rows, _, hload, h⟩ := run_bind_eq_ok.mp h
    cases run_query_eq_ok.mp hload
    obtain ⟨memberPks, hmembers, h⟩ := run_lift_bind_eq_ok.mp h
    obtain ⟨threshold, hthreshold, h⟩ := run_lift_bind_eq_ok.mp h
    cases h
    exact ⟨rfl, net, key, tx, memberPks, ⟨hnet, hkey, htx, ⟨sig, hsig⟩, ⟨pks, hpks⟩, hmembers,
      ⟨threshold, hthreshold⟩⟩, rfl⟩
  · rintro ⟨rfl, net, key, tx, memberPks, hreads, rfl⟩
    obtain ⟨sig, hsig⟩ := hreads.signature
    obtain ⟨pks, hpks⟩ := hreads.networkPks
    obtain ⟨threshold, hthreshold⟩ := hreads.threshold
    refine run_bind_eq_ok.mpr ⟨net, db, run_fetchNetwork_eq_ok.mpr ⟨hreads.network, rfl⟩, ?_⟩
    refine run_lift_bind_eq_ok.mpr ⟨key, hreads.trackingKey, ?_⟩
    refine run_bind_eq_ok.mpr ⟨tx, db, run_fetchSignedTx_eq_ok.mpr ⟨hreads.signedTx, rfl⟩, ?_⟩
    refine run_lift_bind_eq_ok.mpr ⟨sig, hsig, ?_⟩
    refine run_lift_bind_eq_ok.mpr ⟨pks, hpks, ?_⟩
    refine run_bind_eq_ok.mpr ⟨_, db, run_query_eq_ok.mpr rfl, ?_⟩
    refine run_lift_bind_eq_ok.mpr ⟨memberPks, hreads.members, ?_⟩
    exact run_lift_bind_eq_ok.mpr ⟨threshold, hthreshold, rfl⟩

/-- Any two keys are answered alike. -/
theorem traceSigners_key_irrelevant {txId hex hex' : String} {key' : Scalar}
    (hkey : decodeTrackingKey hex = .ok key) (hkey' : decodeTrackingKey hex' = .ok key') :
    traceSigners networkId ⟨txId, hex⟩ = traceSigners networkId ⟨txId, hex'⟩ := by
  simp only [traceSigners, hkey, hkey']
  rfl

end Answers

end Sigimora.Server
