import Sigimora.Ats.Scheme
import Sigimora.Crypto.DkgCalls
import Sigimora.Library.HashTable

/-!
# The transaction ledger

A transaction is pending until it is approved or has expired. The three tiers are
hash maps by transaction id; a call reads the clock once, and the sweep visits the
pending transactions in an arbitrary order.
-/

namespace Sigimora.Mcp

variable [Curve]

/-- The age in seconds after which a pending transaction has expired. -/
def expirySeconds : ℕ := 24 * 60 * 60

/-- The id of a transaction. -/
abbrev TxId := String

/-- A hash map by transaction id. -/
abbrev ByTxId (α : Type) := HashTable TxId α

structure ApprovedTransaction where
  id : TxId
  payload : List UInt8
  signature : Ats.AtsSignature
  signers : List ParticipantId
  submittedBy : ParticipantId
  submittedAt : UInt64
  approvedAt : UInt64
  height : UInt64
  zkpThresholdVerified : Bool

structure PendingTransaction where
  id : TxId
  payload : List UInt8
  partialSigs : List Ats.PartialSignature
  submittedBy : ParticipantId
  submittedAt : UInt64
  threshold : ℕ
  zkpComplianceVerified : List ParticipantId

structure RejectedTransaction where
  id : TxId
  payload : List UInt8
  partialCount : ℕ
  threshold : ℕ
  submittedBy : ParticipantId
  submittedAt : UInt64
  rejectedAt : UInt64
  reason : String

namespace PendingTransaction

/-- Whether the transaction is older than the expiry time; no age is negative. -/
def isExpired (tx : PendingTransaction) (now : UInt64) : Bool :=
  now.toNat - tx.submittedAt.toNat > expirySeconds

/-- The number of different signers. -/
def signerCount (tx : PendingTransaction) : ℕ :=
  (tx.partialSigs.map Ats.PartialSignature.nodeId).toFinset.card

/-- Whether enough different signers have signed. -/
def isThresholdMet (tx : PendingTransaction) : Bool := tx.signerCount ≥ tx.threshold

/-- Record the first partial signature of a signer, and tell whether they suffice. -/
def addPartial (tx : PendingTransaction) (partialSig : Ats.PartialSignature) :
    PendingTransaction × Bool :=
  if tx.partialSigs.any fun p => p.nodeId == partialSig.nodeId then (tx, tx.isThresholdMet)
  else
    let next := { tx with partialSigs := tx.partialSigs ++ [partialSig] }
    (next, next.isThresholdMet)

/-- The record of an expired transaction. -/
def rejection (tx : PendingTransaction) (now : UInt64) : RejectedTransaction where
  id := tx.id
  partialCount := tx.signerCount
  threshold := tx.threshold
  submittedBy := tx.submittedBy
  submittedAt := tx.submittedAt
  rejectedAt := now
  reason := s!"Expired: {tx.signerCount}/{tx.threshold} signatures after 24h"
  payload := tx.payload

end PendingTransaction

structure TransactionLedger where
  approved : ByTxId ApprovedTransaction
  pending : ByTxId PendingTransaction
  rejected : ByTxId RejectedTransaction
  height : UInt64

/-- The record of a transaction in one of the tiers. -/
inductive TransactionInfo
  | approved (tx : ApprovedTransaction)
  | pending (tx : PendingTransaction)
  | rejected (tx : RejectedTransaction)

/-- The id in the record. -/
def TransactionInfo.id : TransactionInfo → TxId
  | .approved tx => tx.id
  | .pending tx => tx.id
  | .rejected tx => tx.id

/-- The id of a payload. -/
def computeTxId (payload : List UInt8) : TxId := ByteString.hexEncode (Curve.sha256 payload)

/-- The record of a transaction that is submitted. -/
def PendingTransaction.opened (payload : List UInt8) (submittedBy : ParticipantId)
    (threshold : ℕ) (now : UInt64) : PendingTransaction where
  id := computeTxId payload
  payload := payload
  partialSigs := []
  submittedBy := submittedBy
  submittedAt := now
  threshold := threshold
  zkpComplianceVerified := []

/-- The record of a transaction that is approved. -/
def PendingTransaction.approval (tx : PendingTransaction) (signature : Ats.AtsSignature)
    (now height : UInt64) : ApprovedTransaction where
  id := tx.id
  payload := tx.payload
  signature := signature
  signers := signature.quorum
  submittedBy := tx.submittedBy
  submittedAt := tx.submittedAt
  approvedAt := now
  height := height
  zkpThresholdVerified := false

namespace TransactionLedger

def new : TransactionLedger where
  approved := ∅
  pending := ∅
  rejected := ∅
  height := 0

/-- Open a transaction, unless the payload is pending or approved. -/
def submit (ledger : TransactionLedger) (payload : List UInt8) (submittedBy : ParticipantId)
    (threshold : ℕ) (now : UInt64) : TxId × TransactionLedger :=
  let id := computeTxId payload
  if id ∈ ledger.approved ∨ id ∈ ledger.pending then (id, ledger)
  else
    (id, { ledger with
      pending := ledger.pending.insert id (.opened payload submittedBy threshold now) })

/-- Record a partial signature of a pending transaction. The id is returned when
there are enough of them. -/
def addPartialSignature (ledger : TransactionLedger) (txId : TxId)
    (partialSig : Ats.PartialSignature) : Option TxId × TransactionLedger :=
  match ledger.pending.lookup txId with
  | some pending =>
    (if (pending.addPartial partialSig).2 then some txId else none,
      { ledger with pending := ledger.pending.insert txId (pending.addPartial partialSig).1 })
  | none => (none, ledger)

/-- Move a pending transaction to the approved ones. The height wraps around. -/
def approve (ledger : TransactionLedger) (txId : TxId) (signature : Ats.AtsSignature)
    (now : UInt64) : Option ApprovedTransaction × TransactionLedger :=
  match ledger.pending.lookup txId with
  | some pending =>
    let approved := pending.approval signature now (ledger.height + 1)
    (some approved,
      { ledger with
        pending := ledger.pending.erase txId
        height := ledger.height + 1
        approved := ledger.approved.insert pending.id approved })
  | none => (none, ledger)

/-- The ids of the expired transactions, in the order of the visit. -/
def expiredIds (ledger : TransactionLedger) (order : Traversal (Sigma fun _ : TxId =>
    PendingTransaction)) (now : UInt64) : List TxId :=
  ((order.arrange ledger.pending.entries).filter fun entry => entry.2.isExpired now).map Sigma.fst

/-- Move one pending transaction to the rejected ones. -/
def reject (ledger : TransactionLedger) (now : UInt64) (id : TxId) : TransactionLedger :=
  match ledger.pending.lookup id with
  | some pending =>
    { ledger with
      pending := ledger.pending.erase id
      rejected := ledger.rejected.insert pending.id (pending.rejection now) }
  | none => ledger

/-- Reject all expired transactions. -/
def sweepExpired (ledger : TransactionLedger) (order : Traversal (Sigma fun _ : TxId =>
    PendingTransaction)) (now : UInt64) : ℕ × TransactionLedger :=
  ((ledger.expiredIds order now).length,
    (ledger.expiredIds order now).foldl (fun next id => next.reject now id) ledger)

/-- The record of a transaction; approved ones come first and rejected ones last. -/
def findTransaction (ledger : TransactionLedger) (txId : TxId) : Option TransactionInfo :=
  match ledger.approved.lookup txId with
  | some tx => some (.approved tx)
  | none =>
    match ledger.pending.lookup txId with
    | some tx => some (.pending tx)
    | none => (ledger.rejected.lookup txId).map .rejected

end TransactionLedger

/-- A call that changes the ledger. -/
inductive LedgerCall
  | submit (payload : List UInt8) (submittedBy : ParticipantId) (threshold : ℕ) (now : UInt64)
  | addPartialSignature (txId : TxId) (partialSig : Ats.PartialSignature)
  | approve (txId : TxId) (signature : Ats.AtsSignature) (now : UInt64)
  | sweepExpired (order : Traversal (Sigma fun _ : TxId => PendingTransaction)) (now : UInt64)

/-- The ledger after a call. -/
def TransactionLedger.call (ledger : TransactionLedger) : LedgerCall → TransactionLedger
  | .submit payload submittedBy threshold now =>
    (ledger.submit payload submittedBy threshold now).2
  | .addPartialSignature txId partialSig => (ledger.addPartialSignature txId partialSig).2
  | .approve txId signature now => (ledger.approve txId signature now).2
  | .sweepExpired order now => (ledger.sweepExpired order now).2

/-- The reading of the clock, if the call takes one. -/
def LedgerCall.time? : LedgerCall → Option UInt64
  | .submit _ _ _ now => some now
  | .addPartialSignature _ _ => none
  | .approve _ _ now => some now
  | .sweepExpired _ now => some now

/-- The clock does not go back. -/
def ClockForward (calls : List LedgerCall) : Prop :=
  (calls.filterMap LedgerCall.time?).Pairwise (· ≤ ·)

instance (calls : List LedgerCall) : Decidable (ClockForward calls) :=
  inferInstanceAs (Decidable ((calls.filterMap LedgerCall.time?).Pairwise (· ≤ ·)))

end Sigimora.Mcp
