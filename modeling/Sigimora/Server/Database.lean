import Mathlib.Data.List.Sort
import Sigimora.Library.Program
import Sigimora.Server.Error

/-!
# The database

The tables of the server with the constraints of their schema, and the SQL
statements that the handlers execute. A statement is atomic: it replies and
leaves a new database, which is the old one when a constraint refuses it. Rows
of nodes, of the ledger and of the audit log are never deleted, so that the
numbers that SQLite assigns to them are consecutive.
-/

namespace Sigimora.Server

/-! ## Rows -/

/-- A network. The numbers are stored as `i64`; the casts from and to `usize` undo each other. -/
structure NetworkRow where
  id : String
  n : ℕ
  t : ℕ
  f : ℕ
  quorum : ℕ
  collectivePk : Option (List UInt8)
  trackingPk : Option (List UInt8)
  trackingSk : Option (List UInt8)
  state : String
  createdAt : String

structure NodeRow where
  id : ℕ
  nodeId : ℕ
  networkId : String
  publicKey : List UInt8
  secretKey : List UInt8
  companyName : Option String
  epoch : ℕ
  createdAt : String

structure LedgerRow where
  blockIndex : ℕ
  txId : String
  networkId : String
  messageHash : List UInt8
  signature : Option (List UInt8)
  signers : String
  epoch : ℕ
  createdAt : String

structure SignedTxRow where
  txId : String
  networkId : String
  message : List UInt8
  signature : List UInt8
  quorum : String
  createdAt : String

structure ApiKeyRow where
  id : String
  keyHash : String
  keyPrefix : String
  label : String
  role : String
  createdAt : String
  lastUsedAt : Option String

structure AuditLogRow where
  id : ℕ
  timestamp : String
  action : String
  actor : String
  target : String
  details : String

/-- The tables, with their keys and references. -/
structure Db where
  networks : List NetworkRow
  nodes : List NodeRow
  ledger : List LedgerRow
  signedTxs : List SignedTxRow
  apiKeys : List ApiKeyRow
  auditLog : List AuditLogRow
  networks_nodup : (networks.map NetworkRow.id).Nodup
  nodes_nodup : (nodes.map fun row => (row.nodeId, row.networkId)).Nodup
  nodes_reference : ∀ row ∈ nodes, row.networkId ∈ networks.map NetworkRow.id
  nodes_id : nodes.map NodeRow.id = List.range' 1 nodes.length
  ledger_id : ledger.map LedgerRow.blockIndex = List.range' 1 ledger.length
  signedTxs_nodup : (signedTxs.map SignedTxRow.txId).Nodup
  apiKeys_nodup : (apiKeys.map ApiKeyRow.id).Nodup
  auditLog_id : auditLog.map AuditLogRow.id = List.range' 1 auditLog.length

namespace Db

/-- The tables before the first request. -/
def empty : Db where
  networks := []
  nodes := []
  ledger := []
  signedTxs := []
  apiKeys := []
  auditLog := []
  networks_nodup := List.nodup_nil
  nodes_nodup := List.nodup_nil
  nodes_reference := by simp
  nodes_id := rfl
  ledger_id := rfl
  signedTxs_nodup := List.nodup_nil
  apiKeys_nodup := List.nodup_nil
  auditLog_id := rfl

/-- Appending a row with a new key keeps the keys distinct. -/
theorem nodup_append_key {α β : Type} {key : α → β} {rows : List α} {row : α}
    (h : (rows.map key).Nodup) (hnew : key row ∉ rows.map key) :
    ((rows ++ [row]).map key).Nodup := by
  rw [List.map_append, List.map_singleton]
  exact List.nodup_append.mpr ⟨h, List.nodup_singleton _, fun a ha b hb => by
    rw [List.mem_singleton] at hb
    rintro rfl
    exact hnew (hb ▸ ha)⟩

/-! ### Rewriting rows -/

/-- Rewrite the rows of networks, without touching their keys. -/
def mapNetworks (db : Db) (f : NetworkRow → NetworkRow) (hf : ∀ row, (f row).id = row.id) : Db :=
  have hids : (db.networks.map f).map NetworkRow.id = db.networks.map NetworkRow.id := by
    rw [List.map_map]
    exact List.map_congr_left fun row _ => hf row
  { db with
    networks := db.networks.map f
    networks_nodup := hids ▸ db.networks_nodup
    nodes_reference := hids ▸ db.nodes_reference }

/-- Rewrite the rows of nodes, without touching their keys. -/
def mapNodes (db : Db) (f : NodeRow → NodeRow)
    (hf : ∀ row, (f row).id = row.id ∧ (f row).nodeId = row.nodeId ∧
      (f row).networkId = row.networkId) : Db :=
  { db with
    nodes := db.nodes.map f
    nodes_nodup := by
      have hkeys : (db.nodes.map f).map (fun row => (row.nodeId, row.networkId)) =
          db.nodes.map fun row => (row.nodeId, row.networkId) := by
        rw [List.map_map]
        exact List.map_congr_left fun row _ => Prod.ext (hf row).2.1 (hf row).2.2
      exact hkeys ▸ db.nodes_nodup
    nodes_reference := by
      intro row hrow
      obtain ⟨old, hold, rfl⟩ := List.mem_map.mp hrow
      rw [(hf old).2.2]
      exact db.nodes_reference old hold
    nodes_id := by
      have hids : (db.nodes.map f).map NodeRow.id = db.nodes.map NodeRow.id := by
        rw [List.map_map]
        exact List.map_congr_left fun row _ => (hf row).1
      rw [hids, List.length_map]
      exact db.nodes_id }

/-! ### Queries and updates -/

def insertNetwork (db : Db) (net : NetworkRow) : Except DbError Unit × Db :=
  if h : net.id ∈ db.networks.map NetworkRow.id then
    (.error (.constraint "UNIQUE constraint failed: networks.id"), db)
  else
    (.ok (), { db with
      networks := db.networks ++ [net]
      networks_nodup := nodup_append_key db.networks_nodup h
      nodes_reference := fun row hrow => by
        rw [List.map_append]
        exact List.mem_append_left _ (db.nodes_reference row hrow) })

def getNetwork (db : Db) (id : String) : Option NetworkRow :=
  db.networks.find? fun row => row.id = id

def updateNetworkState (db : Db) (id state : String) (collectivePk : Option (List UInt8)) : Db :=
  db.mapNetworks (fun row => if row.id = id then { row with state, collectivePk } else row)
    fun row => by split <;> rfl

/-- The row number is assigned by the database. -/
def insertNode (db : Db) (node : NodeRow) : Except DbError Unit × Db :=
  if h : (node.nodeId, node.networkId) ∈ db.nodes.map fun row => (row.nodeId, row.networkId) then
    (.error (.constraint "UNIQUE constraint failed: nodes.node_id, nodes.network_id"), db)
  else if hnet : node.networkId ∈ db.networks.map NetworkRow.id then
    (.ok (), { db with
      nodes := db.nodes ++ [{ node with id := db.nodes.length + 1 }]
      nodes_nodup := nodup_append_key db.nodes_nodup h
      nodes_reference := fun row hrow => by
        rcases List.mem_append.mp hrow with hrow | hrow
        · exact db.nodes_reference row hrow
        · rw [List.mem_singleton.mp hrow]
          exact hnet
      nodes_id := by
        rw [List.map_append, db.nodes_id, List.length_append, List.length_singleton,
          List.range'_concat, List.map_singleton, one_mul, Nat.add_comm 1] })
  else (.error (.constraint "FOREIGN KEY constraint failed"), db)

/-- The nodes of a network, ordered by their node id. -/
def getNodesByNetwork (db : Db) (networkId : String) : List NodeRow :=
  (db.nodes.filter fun row => row.networkId = networkId).insertionSort
    fun a b => a.nodeId ≤ b.nodeId

def updateNodeSecret (db : Db) (networkId : String) (nodeId : ParticipantId)
    (secretKey : List UInt8) : Db :=
  db.mapNodes (fun row => if row.networkId = networkId ∧ row.nodeId = nodeId.toNat then
    { row with secretKey } else row) fun row => by split <;> exact ⟨rfl, rfl, rfl⟩

def updateNodeEpoch (db : Db) (id epoch : ℕ) : Db :=
  db.mapNodes (fun row => if row.id = id then { row with epoch } else row)
    fun row => by split <;> exact ⟨rfl, rfl, rfl⟩

/-- The block index is assigned by the database. -/
def insertLedgerEntry (db : Db) (entry : LedgerRow) : Except DbError Unit × Db :=
  if entry.networkId ∈ db.networks.map NetworkRow.id then
    (.ok (), { db with
      ledger := db.ledger ++ [{ entry with blockIndex := db.ledger.length + 1 }]
      ledger_id := by
        rw [List.map_append, db.ledger_id, List.length_append, List.length_singleton,
          List.range'_concat, List.map_singleton, one_mul, Nat.add_comm 1] })
  else (.error (.constraint "FOREIGN KEY constraint failed"), db)

def insertSignedTx (db : Db) (tx : SignedTxRow) : Except DbError Unit × Db :=
  if h : tx.txId ∈ db.signedTxs.map SignedTxRow.txId then
    (.error (.constraint "UNIQUE constraint failed: signed_txs.tx_id"), db)
  else if tx.networkId ∈ db.networks.map NetworkRow.id then
    (.ok (), { db with
      signedTxs := db.signedTxs ++ [tx]
      signedTxs_nodup := nodup_append_key db.signedTxs_nodup h })
  else (.error (.constraint "FOREIGN KEY constraint failed"), db)

def insertApiKey (db : Db) (key : ApiKeyRow) : Except DbError Unit × Db :=
  if h : key.id ∈ db.apiKeys.map ApiKeyRow.id then
    (.error (.constraint "UNIQUE constraint failed: api_keys.id"), db)
  else
    (.ok (), { db with
      apiKeys := db.apiKeys ++ [key]
      apiKeys_nodup := nodup_append_key db.apiKeys_nodup h })

def getSignedTx (db : Db) (txId : String) : Option SignedTxRow :=
  db.signedTxs.find? fun row => row.txId = txId

def getApiKeyByHash (db : Db) (hash : String) : Option ApiKeyRow :=
  db.apiKeys.find? fun row => row.keyHash = hash

def touchApiKey (db : Db) (id now : String) : Db :=
  { db with
    apiKeys := db.apiKeys.map fun row =>
      if row.id = id then { row with lastUsedAt := some now } else row
    apiKeys_nodup := by
      have hids : (db.apiKeys.map fun row =>
          if row.id = id then { row with lastUsedAt := some now } else row).map ApiKeyRow.id =
          db.apiKeys.map ApiKeyRow.id := by
        rw [List.map_map]
        exact List.map_congr_left fun row _ => by
          rw [Function.comp_apply]
          split <;> rfl
      exact hids ▸ db.apiKeys_nodup }

/-- The rows without the one of the given id, and whether there was one. -/
def deleteApiKey (db : Db) (id : String) : Bool × Db :=
  (decide (id ∈ db.apiKeys.map ApiKeyRow.id),
    { db with
      apiKeys := db.apiKeys.filter fun row => row.id ≠ id
      apiKeys_nodup := db.apiKeys_nodup.sublist (List.filter_sublist.map _) })

/-- The number of an entry is assigned by the database. -/
def insertAuditLog (db : Db) (entry : AuditLogRow) : Db :=
  { db with
    auditLog := db.auditLog ++ [{ entry with id := db.auditLog.length + 1 }]
    auditLog_id := by
      rw [List.map_append, db.auditLog_id, List.length_append, List.length_singleton,
        List.range'_concat, List.map_singleton, one_mul, Nat.add_comm 1] }

/-! ### Listings -/

/-- `LIMIT limit OFFSET offset`; an offset that is negative as an `i64` counts as zero. -/
def page {α : Type} (offset limit : ℕ) (rows : List α) : List α :=
  (if offset < 2 ^ 63 then rows.drop offset else rows).take limit

/-- The newest networks come first. -/
def listNetworks (db : Db) : List NetworkRow :=
  db.networks.insertionSort fun a b => b.createdAt ≤ a.createdAt

/-- The newest keys come first. -/
def listApiKeys (db : Db) : List ApiKeyRow :=
  db.apiKeys.insertionSort fun a b => b.createdAt ≤ a.createdAt

def listApiKeysPaginated (db : Db) (offset limit : ℕ) : List ApiKeyRow :=
  page offset limit db.listApiKeys

def getNode (db : Db) (networkId : String) (nodeId : ParticipantId) : Option NodeRow :=
  db.nodes.find? fun row => row.networkId = networkId ∧ row.nodeId = nodeId.toNat

def getNodesByNetworkPaginated (db : Db) (networkId : String) (offset limit : ℕ) : List NodeRow :=
  page offset limit (db.getNodesByNetwork networkId)

def countNodesByNetwork (db : Db) (networkId : String) : ℕ :=
  db.nodes.countP fun row => row.networkId = networkId

/-- The latest blocks of a network come first. -/
def getLedgerByNetwork (db : Db) (networkId : String) (offset limit : ℕ) : List LedgerRow :=
  page offset limit ((db.ledger.filter fun row => row.networkId = networkId).insertionSort
    fun a b => b.blockIndex ≤ a.blockIndex)

def countLedgerByNetwork (db : Db) (networkId : String) : ℕ :=
  db.ledger.countP fun row => row.networkId = networkId

/-- The latest entries come first. -/
def listAuditLogsPaginated (db : Db) (offset limit : ℕ) : List AuditLogRow :=
  page offset limit (db.auditLog.insertionSort fun a b => b.id ≤ a.id)

end Db

/-! ## Statements -/

/-- The statements that the handlers execute. -/
inductive Stmt
  | insertNetwork (net : NetworkRow)
  | getNetwork (id : String)
  | updateNetworkState (id state : String) (collectivePk : Option (List UInt8))
  | insertNode (node : NodeRow)
  | getNodesByNetwork (networkId : String)
  | updateNodeSecret (networkId : String) (nodeId : ParticipantId) (secretKey : List UInt8)
  | updateNodeEpoch (id epoch : ℕ)
  | insertLedgerEntry (entry : LedgerRow)
  | insertSignedTx (tx : SignedTxRow)
  | insertApiKey (key : ApiKeyRow)
  | getSignedTx (txId : String)
  | getApiKeyByHash (hash : String)
  | touchApiKey (id now : String)
  | deleteApiKey (id : String)
  | insertAuditLog (entry : AuditLogRow)
  | listNetworks
  | listApiKeys
  | listApiKeysPaginated (offset limit : ℕ)
  | getNode (networkId : String) (nodeId : ParticipantId)
  | getNodesByNetworkPaginated (networkId : String) (offset limit : ℕ)
  | countNodesByNetwork (networkId : String)
  | getLedgerByNetwork (networkId : String) (offset limit : ℕ)
  | countLedgerByNetwork (networkId : String)
  | listAuditLogsPaginated (offset limit : ℕ)
  | countNetworks
  | countAllNodes
  | countAllLedgerEntries
  | countApiKeys
  | countAuditLogs
  | selectOne

/-- What a successful statement returns. -/
@[reducible] def Stmt.Value : Stmt → Type
  | .getNetwork _ => Option NetworkRow
  | .getNodesByNetwork _ => List NodeRow
  | .getSignedTx _ => Option SignedTxRow
  | .getApiKeyByHash _ => Option ApiKeyRow
  | .deleteApiKey _ => Bool
  | .listNetworks => List NetworkRow
  | .listApiKeys => List ApiKeyRow
  | .listApiKeysPaginated _ _ => List ApiKeyRow
  | .getNode _ _ => Option NodeRow
  | .getNodesByNetworkPaginated _ _ _ => List NodeRow
  | .getLedgerByNetwork _ _ _ => List LedgerRow
  | .listAuditLogsPaginated _ _ => List AuditLogRow
  | .countNodesByNetwork _ => ℕ
  | .countLedgerByNetwork _ => ℕ
  | .countNetworks => ℕ
  | .countAllNodes => ℕ
  | .countAllLedgerEntries => ℕ
  | .countApiKeys => ℕ
  | .countAuditLogs => ℕ
  | _ => Unit

/-- The answer to a statement. -/
abbrev Reply (s : Stmt) : Type := Except DbError s.Value

/-- Execute a statement. -/
def exec : (s : Stmt) → Db → Reply s × Db
  | .insertNetwork net, db => db.insertNetwork net
  | .getNetwork id, db => (.ok (db.getNetwork id), db)
  | .updateNetworkState id state collectivePk, db =>
    (.ok (), db.updateNetworkState id state collectivePk)
  | .insertNode node, db => db.insertNode node
  | .getNodesByNetwork networkId, db => (.ok (db.getNodesByNetwork networkId), db)
  | .updateNodeSecret networkId nodeId secretKey, db =>
    (.ok (), db.updateNodeSecret networkId nodeId secretKey)
  | .updateNodeEpoch id epoch, db => (.ok (), db.updateNodeEpoch id epoch)
  | .insertLedgerEntry entry, db => db.insertLedgerEntry entry
  | .insertSignedTx tx, db => db.insertSignedTx tx
  | .insertApiKey key, db => db.insertApiKey key
  | .getSignedTx txId, db => (.ok (db.getSignedTx txId), db)
  | .getApiKeyByHash hash, db => (.ok (db.getApiKeyByHash hash), db)
  | .touchApiKey id now, db => (.ok (), db.touchApiKey id now)
  | .deleteApiKey id, db => (.ok (db.deleteApiKey id).1, (db.deleteApiKey id).2)
  | .insertAuditLog entry, db => (.ok (), db.insertAuditLog entry)
  | .listNetworks, db => (.ok db.listNetworks, db)
  | .listApiKeys, db => (.ok db.listApiKeys, db)
  | .listApiKeysPaginated offset limit, db => (.ok (db.listApiKeysPaginated offset limit), db)
  | .getNode networkId nodeId, db => (.ok (db.getNode networkId nodeId), db)
  | .getNodesByNetworkPaginated networkId offset limit, db =>
    (.ok (db.getNodesByNetworkPaginated networkId offset limit), db)
  | .countNodesByNetwork networkId, db => (.ok (db.countNodesByNetwork networkId), db)
  | .getLedgerByNetwork networkId offset limit, db =>
    (.ok (db.getLedgerByNetwork networkId offset limit), db)
  | .countLedgerByNetwork networkId, db => (.ok (db.countLedgerByNetwork networkId), db)
  | .listAuditLogsPaginated offset limit, db => (.ok (db.listAuditLogsPaginated offset limit), db)
  | .countNetworks, db => (.ok db.networks.length, db)
  | .countAllNodes, db => (.ok db.nodes.length, db)
  | .countAllLedgerEntries, db => (.ok db.ledger.length, db)
  | .countApiKeys, db => (.ok db.apiKeys.length, db)
  | .countAuditLogs, db => (.ok db.auditLog.length, db)
  | .selectOne, db => (.ok (), db)

/-! ## What the updates change -/

namespace Db

variable {db db' : Db}

/-- The rows that are read for a network are its rows. -/
theorem mem_getNodesByNetwork {networkId : String} {row : NodeRow} :
    row ∈ db.getNodesByNetwork networkId ↔ row ∈ db.nodes ∧ row.networkId = networkId := by
  rw [getNodesByNetwork, List.mem_insertionSort, List.mem_filter, decide_eq_true_iff]

/-- The number of a row tells its network. -/
theorem id_mem_getNodesByNetwork {row : NodeRow} (hrow : row ∈ db.nodes) {networkId : String} :
    row.id ∈ (db.getNodesByNetwork networkId).map NodeRow.id ↔ row.networkId = networkId := by
  constructor
  · intro hid
    obtain ⟨other, hother, hid⟩ := List.mem_map.mp hid
    obtain ⟨hmem, hnetwork⟩ := mem_getNodesByNetwork.mp hother
    have hnodup : (db.nodes.map NodeRow.id).Nodup := db.nodes_id ▸ List.nodup_range'
    rwa [← List.inj_on_of_nodup_map hnodup hmem hrow hid]
  · intro hnetwork
    exact List.mem_map_of_mem (mem_getNodesByNetwork.mpr ⟨hrow, hnetwork⟩)

/-- The network that is found has the id. -/
theorem id_of_getNetwork {id : String} {net : NetworkRow} (h : db.getNetwork id = some net) :
    net.id = id := by
  simpa using List.find?_some h

/-- A network that is found is stored. -/
theorem mem_networks_of_getNetwork {id : String} {net : NetworkRow}
    (h : db.getNetwork id = some net) : id ∈ db.networks.map NetworkRow.id := by
  rw [← id_of_getNetwork h]
  exact List.mem_map_of_mem (List.mem_of_find?_eq_some h)

/-- A network is stored just if it is found. -/
theorem mem_networks_iff {networkId : String} :
    networkId ∈ db.networks.map NetworkRow.id ↔ (db.getNetwork networkId).isSome = true := by
  rw [getNetwork, List.find?_isSome, List.mem_map]
  simp only [decide_eq_true_iff]

/-- The new state and key of a network. -/
theorem getNetwork_updateNetworkState {id : String} {net : NetworkRow}
    (h : db.getNetwork id = some net) (state : String) (collectivePk : Option (List UInt8)) :
    (db.updateNetworkState id state collectivePk).getNetwork id =
      some { net with state, collectivePk } := by
  have hpred : (fun row : NetworkRow => decide (row.id = id)) ∘ (fun row =>
      if row.id = id then { row with state, collectivePk } else row) =
      fun row => decide (row.id = id) := by
    funext row
    by_cases hid : row.id = id <;> simp [hid]
  have hfind : db.networks.find? (fun row => decide (row.id = id)) = some net := h
  simp only [getNetwork, updateNetworkState, mapNetworks, List.find?_map, hpred, hfind,
    Option.map_some, if_pos (id_of_getNetwork h)]

/-- An update of the rows is seen by whoever reads those of a network. -/
theorem getNodesByNetwork_mapNodes (f : NodeRow → NodeRow)
    (hf : ∀ row, (f row).id = row.id ∧ (f row).nodeId = row.nodeId ∧
      (f row).networkId = row.networkId) (networkId : String) :
    (db.mapNodes f hf).getNodesByNetwork networkId =
      (db.getNodesByNetwork networkId).map f := by
  have hpred : (fun row : NodeRow => decide (row.networkId = networkId)) ∘ f =
      fun row => decide (row.networkId = networkId) := by
    funext row
    rw [Function.comp_apply, (hf row).2.2]
  simp only [getNodesByNetwork, mapNodes, List.filter_map, hpred]
  exact (List.map_insertionSort _ _ f _ fun a _ b _ => by
    rw [(hf a).2.1, (hf b).2.1]).symm

/-- The new secret of a node of the network. -/
theorem getNodesByNetwork_updateNodeSecret (networkId : String) (nodeId : ParticipantId)
    (secretKey : List UInt8) :
    (db.updateNodeSecret networkId nodeId secretKey).getNodesByNetwork networkId =
      (db.getNodesByNetwork networkId).map fun row =>
        if row.nodeId = nodeId.toNat then { row with secretKey } else row := by
  rw [updateNodeSecret, getNodesByNetwork_mapNodes]
  refine List.map_congr_left fun row hrow => ?_
  simp only [(mem_getNodesByNetwork.mp hrow).2, true_and]

/-- A new epoch changes the epoch of one row. -/
theorem getNodesByNetwork_updateNodeEpoch (id epoch : ℕ) (networkId : String) :
    (db.updateNodeEpoch id epoch).getNodesByNetwork networkId =
      (db.getNodesByNetwork networkId).map fun row =>
        if row.id = id then { row with epoch } else row :=
  getNodesByNetwork_mapNodes _ _ _

/-- A network that was just inserted has no nodes. -/
theorem insertNetwork_eq_ok {net : NetworkRow} (h : db.insertNetwork net = (.ok (), db')) :
    db'.getNetwork net.id = some net ∧
      db'.nodes.filter (fun row => row.networkId = net.id) = [] := by
  unfold insertNetwork at h
  split at h
  · cases h
  · rename_i hnew
    cases h
    constructor
    · rw [getNetwork, List.find?_append, List.find?_eq_none.mpr, Option.none_or]
      · simp
      · intro row hrow hid
        exact hnew (List.mem_map.mpr ⟨row, hrow, by simpa using hid⟩)
    · refine List.filter_eq_nil_iff.mpr fun row hrow hid => hnew ?_
      rw [← of_decide_eq_true hid]
      exact db.nodes_reference row hrow

/-- A node that was inserted is appended, with the number that it was given. -/
theorem insertNode_eq_ok {node : NodeRow} (h : db.insertNode node = (.ok (), db')) :
    db'.networks = db.networks ∧
      db'.nodes = db.nodes ++ [{ node with id := db.nodes.length + 1 }] := by
  unfold insertNode at h
  split at h
  · cases h
  · split at h
    · cases h
      exact ⟨rfl, rfl⟩
    · cases h

/-- A new key does not touch networks and nodes. -/
theorem insertApiKey_eq_ok {key : ApiKeyRow} (h : db.insertApiKey key = (.ok (), db')) :
    db'.networks = db.networks ∧ db'.nodes = db.nodes := by
  unfold insertApiKey at h
  split at h
  · cases h
  · cases h
    exact ⟨rfl, rfl⟩

/-- Records leave networks and nodes alone. -/
theorem insertLedgerEntry_frame (db : Db) (entry : LedgerRow) :
    (db.insertLedgerEntry entry).2.networks = db.networks ∧
      (db.insertLedgerEntry entry).2.nodes = db.nodes := by
  unfold insertLedgerEntry
  split <;> exact ⟨rfl, rfl⟩

/-- Neither does a new transaction. -/
theorem insertSignedTx_frame (db : Db) (tx : SignedTxRow) :
    (db.insertSignedTx tx).2.networks = db.networks ∧
      (db.insertSignedTx tx).2.nodes = db.nodes := by
  unfold insertSignedTx
  split
  · exact ⟨rfl, rfl⟩
  · split <;> exact ⟨rfl, rfl⟩

/-- An entry for a known network is always recorded. -/
theorem insertLedgerEntry_exists (db : Db) (entry : LedgerRow)
    (hnet : entry.networkId ∈ db.networks.map NetworkRow.id) :
    ∃ db', db.insertLedgerEntry entry = (.ok (), db') ∧ db'.networks = db.networks ∧
      db'.nodes = db.nodes ∧ db'.signedTxs = db.signedTxs ∧
      db'.ledger = db.ledger ++ [{ entry with blockIndex := db.ledger.length + 1 }] := by
  rw [insertLedgerEntry, if_pos hnet]
  exact ⟨_, rfl, rfl, rfl, rfl, rfl⟩

/-- A transaction for a known network is recorded under a fresh id. -/
theorem insertSignedTx_exists (db : Db) (tx : SignedTxRow)
    (hnew : tx.txId ∉ db.signedTxs.map SignedTxRow.txId)
    (hnet : tx.networkId ∈ db.networks.map NetworkRow.id) :
    ∃ db', db.insertSignedTx tx = (.ok (), db') ∧ db'.networks = db.networks ∧
      db'.nodes = db.nodes ∧ db'.ledger = db.ledger ∧
      db'.signedTxs = db.signedTxs ++ [tx] := by
  rw [insertSignedTx, dif_neg hnew, if_pos hnet]
  exact ⟨_, rfl, rfl, rfl, rfl, rfl⟩

/-- A transaction id is recorded only once. -/
theorem insertSignedTx_of_mem {tx : SignedTxRow}
    (h : tx.txId ∈ db.signedTxs.map SignedTxRow.txId) :
    db.insertSignedTx tx =
      (.error (.constraint "UNIQUE constraint failed: signed_txs.tx_id"), db) :=
  dif_pos h

/-- A network with a new id can be created. -/
theorem insertNetwork_exists (net : NetworkRow) (h : net.id ∉ db.networks.map NetworkRow.id) :
    ∃ db', db.insertNetwork net = (.ok (), db') ∧ net.id ∈ db'.networks.map NetworkRow.id ∧
      db'.nodes = db.nodes ∧ db'.apiKeys = db.apiKeys := by
  rw [insertNetwork, dif_neg h]
  exact ⟨_, rfl, by simp, rfl, rfl⟩

/-- A node with a new id can be added to a network that exists. -/
theorem insertNode_exists (node : NodeRow)
    (hnew : (node.nodeId, node.networkId) ∉ db.nodes.map fun row => (row.nodeId, row.networkId))
    (hnet : node.networkId ∈ db.networks.map NetworkRow.id) :
    ∃ db', db.insertNode node = (.ok (), db') ∧ db'.networks = db.networks ∧
      db'.nodes = db.nodes ++ [{ node with id := db.nodes.length + 1 }] ∧
      db'.apiKeys = db.apiKeys := by
  rw [insertNode, dif_neg hnew, dif_pos hnet]
  exact ⟨_, rfl, rfl, rfl, rfl⟩

/-- A key with a new id can be stored. -/
theorem insertApiKey_exists (key : ApiKeyRow) (h : key.id ∉ db.apiKeys.map ApiKeyRow.id) :
    ∃ db', db.insertApiKey key = (.ok (), db') ∧ db'.apiKeys = db.apiKeys ++ [key] := by
  rw [insertApiKey, dif_neg h]
  exact ⟨_, rfl, rfl⟩

/-- A key id is stored only once. -/
theorem insertApiKey_of_mem {key : ApiKeyRow} (h : key.id ∈ db.apiKeys.map ApiKeyRow.id) :
    db.insertApiKey key =
      (.error (.constraint "UNIQUE constraint failed: api_keys.id"), db) :=
  dif_pos h

end Db

end Sigimora.Server
