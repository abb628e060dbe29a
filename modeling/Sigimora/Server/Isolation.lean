import Sigimora.Library.Isolation
import Sigimora.Server.NetworkFrames
import Sigimora.Server.Privilege

/-!
# Networks do not see each other

Requests run side by side, statement by statement. What a network stores, and
what the requests about it are answered, does not depend on the requests about
other networks: their statements can be left out of the schedule. The exceptions
are the listings that are about all networks. The ledger of a network is one of
them, because the indices of its blocks count the blocks of all.
-/

namespace Sigimora.Server

open Handler Program

/-! ## Statements about one network -/

/-- The network whose stored rows a request is about. -/
def Call.network? : Call → Option String
  | getNetwork id _ => some id
  | runDkg networkId _ => some networkId
  | getDkgStatus networkId => some networkId
  | signMessage networkId _ _ => some networkId
  | batchSign networkId _ _ _ => some networkId
  | verifySignature networkId _ => some networkId
  | traceSigners networkId _ => some networkId
  | refreshNetwork networkId _ => some networkId
  | listNodes networkId _ _ => some networkId
  | getNode networkId _ _ => some networkId
  | _ => none

/-- The network that a request creates. -/
def Call.creates : Call → Option String
  | createNetwork _ draws => some draws.networkId
  | _ => none

/-- The transaction ids that a request has drawn. -/
def Call.RecordsTx : Call → String → Prop
  | signMessage _ _ draws, txId => txId = draws.message.txId
  | batchSign _ _ draws _, txId => ∃ k, txId = (draws.message k).txId
  | _, _ => False

/-- The transaction ids that a request looks up or has drawn. -/
def Call.UsesTx (call : Call) (txId : String) : Prop :=
  call.RecordsTx txId ∨
    match call with
    | traceSigners _ req => txId = req.txId
    | _ => False

/-- The statements of a request about the network. Rows of nodes are addressed by their number
only after they were read. -/
def Stmt.About (networkId : String) (call : Call) (h : List (Event Reply)) : Stmt → Prop
  | .getNetwork id => id = networkId
  | .updateNetworkState id _ _ => id = networkId
  | .getNodesByNetwork id => id = networkId
  | .updateNodeSecret id _ _ => id = networkId
  | .updateNodeEpoch id _ => ∃ rows, ⟨.getNodesByNetwork networkId, .ok rows⟩ ∈ h ∧
      id ∈ rows.map NodeRow.id
  | .insertLedgerEntry entry => entry.networkId = networkId
  | .insertSignedTx tx => tx.networkId = networkId ∧ call.RecordsTx tx.txId
  | .getSignedTx txId => call.UsesTx txId
  | .insertAuditLog _ => True
  | .getNode id _ => id = networkId
  | .getNodesByNetworkPaginated id _ _ => id = networkId
  | .countNodesByNetwork id => id = networkId
  | _ => False

/-- The statements that the creation of the network consists of. -/
def Stmt.Creates (networkId : String) : Stmt → Prop
  | .insertNetwork net => net.id = networkId
  | .insertNode node => node.networkId = networkId
  | .insertApiKey _ => True
  | _ => False

/-- The statements that a request may issue. -/
def Call.Issues (call : Call) (h : List (Event Reply)) (s : Stmt) : Prop :=
  match call.network? with
  | some networkId => s.About networkId call h
  | none =>
    match call.creates with
    | some networkId => s.Creates networkId
    | none => s.writesIn [.apiKeys, .auditLog] = true

section Parts

variable {α : Type} {networkId : String} {P : Stmt → Prop}

variable {call : Call}

end Parts

section Requests

variable [Curve] {networkId : String}

/-- Creating a network inserts rows of that network, and keys. -/
theorem creates_createNetwork (req : CreateNetworkRequest) (draws : CreationDraws) :
    Only (Stmt.Creates draws.networkId) (createNetwork req draws) := by
  have hnetwork : (Stmt.insertNetwork (newNetwork req draws)).Creates draws.networkId := rfl
  have hnode (id : ParticipantId) :
      (Stmt.insertNode (newNode draws id)).Creates draws.networkId := rfl
  have hkey (key : ApiKeyRow) : (Stmt.insertApiKey key).Creates draws.networkId := trivial
  refine Only.ite (only_fail _) (Only.ite (only_fail _) ?_)
  exact (only_query hnetwork).bind fun _ =>
    (Only.forM fun id _ => only_query (hnode id)).bind fun _ =>
    (only_query (hkey _)).bind fun _ => only_pure _

variable [Cipher] [JsonIds] [Rfc3339]

end Requests

/-! ## The view of one network -/

namespace Db

variable {db : Db} {networkId : String} {used : String → Prop}

end Db

section Determined

variable {networkId : String} {used : String → Prop} {call : Call} {h : List (Event Reply)}
  {s : Stmt}

end Determined

/-! ## What other requests leave alone -/

/-- The network and the rows that an event has read. -/
def rowsRead : Event Reply → Option (String × List NodeRow)
  | ⟨.getNodesByNetwork id, .ok rows⟩ => some (id, rows)
  | _ => none

/-- The network has a node in the row with the number. -/
def Db.HasRow (db : Db) (networkId : String) (id : ℕ) : Prop :=
  ∃ row ∈ db.nodes, row.networkId = networkId ∧ row.id = id

/-- Numbers that were read are numbers of the network's rows. -/
def RowsKnown {ι : Type} (log : List (ι × Event Reply)) (db : Db) : Prop :=
  ∀ entry ∈ log, ∀ networkId rows, rowsRead entry.2 = some (networkId, rows) →
    ∀ row ∈ rows, db.HasRow networkId row.id

section Frames

variable {db : Db} {networkId other : String} {id : ℕ}

/-- Rows stay in their network. -/
theorem Db.HasRow.map {f : NodeRow → NodeRow} (h : db.HasRow networkId id)
    (hf : ∀ row, (f row).id = row.id ∧ (f row).nodeId = row.nodeId ∧
      (f row).networkId = row.networkId) : (db.mapNodes f hf).HasRow networkId id := by
  obtain ⟨row, hrow, hnetwork, hid⟩ := h
  exact ⟨f row, List.mem_map_of_mem hrow, (hf row).2.2.trans hnetwork, (hf row).1.trans hid⟩

/-- No statement removes a row of a network. -/
theorem Db.HasRow.exec (h : db.HasRow networkId id) (s : Stmt) :
    (Server.exec s db).2.HasRow networkId id := by
  by_cases hwrites : s.writes = some .nodes
  · cases s with
    | insertNode node =>
      obtain ⟨row, hrow, hmatch⟩ := h
      simp only [Server.exec, Db.insertNode]
      split
      · exact ⟨row, hrow, hmatch⟩
      split
      · exact ⟨row, List.mem_append_left _ hrow, hmatch⟩
      · exact ⟨row, hrow, hmatch⟩
    | updateNodeSecret id nodeId secretKey =>
      exact h.map fun row => by split <;> exact ⟨rfl, rfl, rfl⟩
    | updateNodeEpoch id epoch => exact h.map fun row => by split <;> exact ⟨rfl, rfl, rfl⟩
    | _ => cases hwrites
  · have hnodes : (Server.exec s db).2.nodes = db.nodes := exec_agree hwrites db
    rwa [Db.HasRow, hnodes]

/-- What was read stays true. -/
theorem RowsKnown.exec {ι : Type} {log : List (ι × Event Reply)} (h : RowsKnown log db) (i : ι)
    (s : Stmt) : RowsKnown (log ++ [(i, ⟨s, (Server.exec s db).1⟩)]) (Server.exec s db).2 := by
  intro entry hentry networkId rows hread row hrow
  rcases List.mem_append.mp hentry with hentry | hentry
  · exact (h entry hentry networkId rows hread row hrow).exec s
  · rw [List.mem_singleton.mp hentry] at hread
    cases s with
    | getNodesByNetwork id =>
      cases hread
      obtain ⟨hmem, hnetwork⟩ := Db.mem_getNodesByNetwork.mp hrow
      exact ⟨row, hmem, hnetwork, rfl⟩
    | _ => cases hread

variable {used : String → Prop} {s : Stmt}

end Frames

/-! ## Requests side by side -/

section SideBySide

variable [Curve] [Cipher] [JsonIds] [Rfc3339] {ι : Type} [DecidableEq ι]

/-- Requests that have arrived. -/
def arrivals (requests : ι → ApiRequest) (db : Db) :
    System Reply (Fault ApiError) (fun i => (requests i).Response) Db where
  store := db
  programs i := (requests i).serve
  log := []

end SideBySide

end Sigimora.Server
