import Sigimora.Server.KeyRequests
import Sigimora.Server.Tables

/-!
# What requests for one network leave alone

The requests that create a network and replace its keys write to the rows of this
network. The row of any other network, and the keys of its nodes, are as before. No
such request touches the public keys of existing nodes.
-/

namespace Sigimora.Server

open Handler Program

/-- The columns that a node's keys are read from. -/
def NodeRow.keyColumns (row : NodeRow) : ℕ × List UInt8 × List UInt8 :=
  (row.nodeId, row.publicKey, row.secretKey)

/-- The columns that the node's public key is read from. -/
def NodeRow.publicColumns (row : NodeRow) : ℕ × List UInt8 := (row.nodeId, row.publicKey)

/-- The row of the network and the keys of its nodes are the same. -/
structure SameNetwork (db db' : Db) (networkId : String) : Prop where
  network : db'.getNetwork networkId = db.getNetwork networkId
  keys : (db'.getNodesByNetwork networkId).map NodeRow.keyColumns =
    (db.getNodesByNetwork networkId).map NodeRow.keyColumns

/-- The public keys of the nodes are the same. -/
def SamePublic (db db' : Db) (networkId : String) : Prop :=
  (db'.getNodesByNetwork networkId).map NodeRow.publicColumns =
    (db.getNodesByNetwork networkId).map NodeRow.publicColumns

variable {db db' db'' : Db} {networkId other : String}

/-- A network is the same as itself. -/
theorem SameNetwork.refl (db : Db) (networkId : String) : SameNetwork db db networkId := ⟨rfl, rfl⟩

/-- What stays the same twice stays the same. -/
theorem SameNetwork.trans (h : SameNetwork db db' networkId) (h' : SameNetwork db' db'' networkId) :
    SameNetwork db db'' networkId :=
  ⟨h'.network.trans h.network, h'.keys.trans h.keys⟩

/-- With the same networks and nodes every network is the same. -/
theorem SameNetwork.of_eq (hnetworks : db'.networks = db.networks) (hnodes : db'.nodes = db.nodes) :
    SameNetwork db db' networkId := by
  constructor
  · rw [Db.getNetwork, hnetworks]
    rfl
  · rw [Db.getNodesByNetwork, hnodes]
    rfl

/-! ## What is stored for the network -/

section Stored

variable {n t : ℕ}

/-- The node ids and the shares are read from the key columns. -/
theorem rowsHold_iff_keyColumns {rows : List NodeRow} {share : ParticipantId → Scalar} :
    RowsHold rows n share ↔ List.Forall₂ (fun columns id => columns.1 = id.toNat ∧
      columns.2.2 = (share id).toBytes) (rows.map NodeRow.keyColumns) (participants n) := by
  rw [List.forall₂_map_left_iff]
  rfl

variable [Curve] {share : ParticipantId → Scalar} {sk : Scalar}

/-- The same network holds the same shares. -/
theorem SameNetwork.provisioned (h : SameNetwork db db' networkId)
    (hdb : Provisioned db networkId n t share) : Provisioned db' networkId n t share := by
  have hpublic {rows : List NodeRow} :
      (∀ row ∈ rows, ∃ key : G2Point, row.publicKey = key.toBytes) ↔
        ∀ columns ∈ rows.map NodeRow.keyColumns, ∃ key : G2Point, columns.2.1 = key.toBytes := by
    rw [List.forall_mem_map]
    rfl
  refine ⟨?_, ?_, ?_⟩
  · rw [h.network]
    exact hdb.network
  · rw [rowsHold_iff_keyColumns, h.keys, ← rowsHold_iff_keyColumns]
    exact hdb.rows
  · rw [hpublic, h.keys, ← hpublic]
    exact hdb.publicKeys

/-- The same network has the same collective key. -/
theorem SameNetwork.collectiveKey (h : SameNetwork db db' networkId)
    (hkey : CollectiveKey db networkId sk) : CollectiveKey db' networkId sk := by
  rw [CollectiveKey, h.network]
  exact hkey

/-- The keys of the same network are as consistent as before. -/
theorem SameNetwork.keysConsistent (h : SameNetwork db db' networkId)
    (hdb : KeysConsistent db networkId n t) : KeysConsistent db' networkId n t := by
  obtain ⟨p, hdegree, hrows, hkey⟩ := hdb
  exact ⟨p, hdegree, h.provisioned hrows, h.collectiveKey hkey⟩

end Stored

/-! ## Statements -/

/-- The statement writes to no other network. -/
def Stmt.Within (networkId : String) : Stmt → Prop
  | .insertNetwork net => net.id = networkId
  | .updateNetworkState id _ _ => id = networkId
  | .insertNode node => node.networkId = networkId
  | .updateNodeSecret id _ _ => id = networkId
  | _ => True

/-- The statement inserts no node. -/
def Stmt.KeepsNodes : Stmt → Prop
  | .insertNode _ => False
  | _ => True

/-- The tables that are no part of a network's keys. -/
def recordTables : List Table := [.ledger, .signedTxs, .apiKeys, .auditLog]

/-- A statement that only writes records leaves every network the same. -/
theorem SameNetwork.of_writesIn {s : Stmt} (h : s.writesIn recordTables = true) (db : Db) :
    SameNetwork db (exec s db).2 networkId := by
  have hnetworks : Table.networks ∉ recordTables := by decide
  have hnodes : Table.nodes ∉ recordTables := by decide
  have hagree (table : Table) (htable : table ∉ recordTables) : Db.Agree table db (exec s db).2 :=
    exec_agree (Stmt.writes_ne_of_writesIn h htable) db
  exact of_eq (hagree .networks hnetworks) (hagree .nodes hnodes)

/-- One that writes no nodes leaves what is public about them the same. -/
theorem SamePublic.of_writesIn {s : Stmt} (h : s.writesIn (.networks :: recordTables) = true)
    (db : Db) : SamePublic db (exec s db).2 networkId := by
  have hnodes : Table.nodes ∉ .networks :: recordTables := by decide
  have hagree : Db.Agree .nodes db (exec s db).2 :=
    exec_agree (Stmt.writes_ne_of_writesIn h hnodes) db
  rw [SamePublic, Db.getNodesByNetwork, show (exec s db).2.nodes = db.nodes from hagree]
  rfl

/-- A new network does not hide the others. -/
theorem Db.getNetwork_insertNetwork {net : NetworkRow} (hother : net.id ≠ other) :
    (db.insertNetwork net).2.getNetwork other = db.getNetwork other := by
  unfold insertNetwork
  split
  · rfl
  · have hnot : (decide (net.id = other)) = false := decide_eq_false hother
    simp only [getNetwork, List.find?_append, List.find?_cons, hnot, List.find?_nil,
      Option.or_none]

/-- An update of one network is not seen in another. -/
theorem Db.getNetwork_updateNetworkState_of_ne {state : String}
    {collectivePk : Option (List UInt8)} (hother : other ≠ networkId) :
    (db.updateNetworkState networkId state collectivePk).getNetwork other =
      db.getNetwork other := by
  have hpred : (fun row : NetworkRow => decide (row.id = other)) ∘ (fun row =>
      if row.id = networkId then { row with state, collectivePk } else row) =
      fun row => decide (row.id = other) := by
    funext row
    by_cases hid : row.id = networkId <;> simp [hid]
  rw [getNetwork, updateNetworkState, mapNetworks, List.find?_map, hpred]
  cases hfind : db.networks.find? fun row => decide (row.id = other) with
  | none => rw [getNetwork, hfind, Option.map_none]
  | some row =>
    have hid : row.id ≠ networkId := by
      rw [show row.id = other by simpa using List.find?_some hfind]
      exact hother
    rw [getNetwork, hfind, Option.map_some, if_neg hid]

/-- A new node of one network is not seen in another. -/
theorem Db.getNodesByNetwork_insertNode {node : NodeRow} (hother : node.networkId ≠ other) :
    (db.insertNode node).2.getNodesByNetwork other = db.getNodesByNetwork other := by
  unfold insertNode
  split
  · rfl
  · split
    · have hnot : (decide (node.networkId = other)) = false := decide_eq_false hother
      simp only [getNodesByNetwork, List.filter_append, List.filter_cons, hnot, List.filter_nil,
        if_neg Bool.false_ne_true, List.append_nil]
    · rfl

/-- A rewriting of rows that leaves some columns of the network's rows alone. -/
theorem Db.map_columns {β : Type} {f : NodeRow → NodeRow} {columns : NodeRow → β}
    (hcolumns : ∀ row, row.networkId = networkId → columns (f row) = columns row) :
    ((db.getNodesByNetwork networkId).map f).map columns =
      (db.getNodesByNetwork networkId).map columns := by
  rw [List.map_map]
  exact List.map_congr_left fun row hrow => hcolumns row (mem_getNodesByNetwork.mp hrow).2

/-- The effect of writing a secret on the rows of any network. -/
theorem Db.map_updateNodeSecret {β : Type} (columns : NodeRow → β) (nodeId : ParticipantId)
    (secretKey : List UInt8)
    (hcolumns : ∀ row, row.networkId = other → row.networkId = networkId →
      columns { row with secretKey } = columns row) :
    ((db.updateNodeSecret networkId nodeId secretKey).getNodesByNetwork other).map columns =
      (db.getNodesByNetwork other).map columns := by
  rw [updateNodeSecret, getNodesByNetwork_mapNodes]
  refine map_columns fun row hrow => ?_
  split
  · rename_i hmatch
    exact hcolumns row hrow hmatch.1
  · rfl

/-- The effect of writing an epoch. -/
theorem Db.map_updateNodeEpoch {β : Type} (columns : NodeRow → β) (id epoch : ℕ)
    (hcolumns : ∀ row : NodeRow, columns { row with epoch } = columns row) :
    ((db.updateNodeEpoch id epoch).getNodesByNetwork other).map columns =
      (db.getNodesByNetwork other).map columns := by
  rw [updateNodeEpoch, getNodesByNetwork_mapNodes]
  refine map_columns fun row _ => ?_
  split
  · exact hcolumns row
  · rfl

/-- **Other networks.** A statement within one network leaves the others alone. -/
theorem exec_sameNetwork {s : Stmt} (hs : s.Within networkId) (hother : other ≠ networkId)
    (db : Db) : SameNetwork db (exec s db).2 other := by
  cases s with
  | insertNetwork net =>
    refine ⟨Db.getNetwork_insertNetwork fun hid => hother (hid.symm.trans hs), ?_⟩
    have hnodes : Db.Agree .nodes db (exec (.insertNetwork net) db).2 :=
      exec_agree (fun hwrites => by cases hwrites) db
    rw [Db.getNodesByNetwork, show (exec (.insertNetwork net) db).2.nodes = db.nodes from hnodes]
    rfl
  | updateNetworkState id state collectivePk =>
    cases hs
    exact ⟨Db.getNetwork_updateNetworkState_of_ne hother, rfl⟩
  | insertNode node =>
    have hnetworks : Db.Agree .networks db (exec (.insertNode node) db).2 :=
      exec_agree (fun hwrites => by cases hwrites) db
    constructor
    · rw [Db.getNetwork,
        show (exec (.insertNode node) db).2.networks = db.networks from hnetworks]
      rfl
    · exact congrArg _ (Db.getNodesByNetwork_insertNode fun hid => hother (hid.symm.trans hs))
  | updateNodeSecret id nodeId secretKey =>
    cases hs
    exact ⟨rfl, Db.map_updateNodeSecret _ _ _ fun row hrow hid =>
      (hother (hrow.symm.trans hid)).elim⟩
  | updateNodeEpoch id epoch => exact ⟨rfl, Db.map_updateNodeEpoch _ _ _ fun _ => rfl⟩
  | _ => exact SameNetwork.of_writesIn rfl db

/-- A statement that inserts no node leaves the public keys alone. -/
theorem exec_samePublic {s : Stmt} (hs : s.KeepsNodes) (db : Db) (networkId : String) :
    SamePublic db (exec s db).2 networkId := by
  cases s with
  | insertNode node => exact hs.elim
  | updateNodeSecret id nodeId secretKey => exact Db.map_updateNodeSecret _ _ _ fun _ _ _ => rfl
  | updateNodeEpoch id epoch => exact Db.map_updateNodeEpoch _ _ _ fun _ => rfl
  | _ => exact SamePublic.of_writesIn rfl db

/-! ## Requests -/

section Requests

variable {α : Type} {p : Handler α}

/-- A handler that stays within one network leaves the others the same. -/
theorem run_sameNetwork (hp : Only (Stmt.Within networkId) p) (hother : other ≠ networkId)
    (db : Db) : SameNetwork db (p.run exec db).2 other :=
  Only.run (J := fun db' => SameNetwork db db' other) hp
    (fun _ store hs h => h.trans (exec_sameNetwork hs hother store)) (SameNetwork.refl db other)

/-- A handler that keeps the nodes leaves what is public about them the same. -/
theorem run_samePublic (hp : Only Stmt.KeepsNodes p) (db : Db) (networkId : String) :
    SamePublic db (p.run exec db).2 networkId :=
  Only.run (J := fun db' => SamePublic db db' networkId) hp
    (fun _ store hs h => (exec_samePublic hs store networkId).trans h) rfl

variable [Curve] {P : Stmt → Prop}

/-- What the statements of a key generation have, it has. -/
theorem only_runDkg (coins : PartyDraws) (hnetwork : P (.getNetwork networkId))
    (hnodes : P (.getNodesByNetwork networkId))
    (hsecret : ∀ nodeId bytes, P (.updateNodeSecret networkId nodeId bytes))
    (hstate : ∀ state pk, P (.updateNetworkState networkId state pk)) :
    Only P (runDkg networkId coins) := by
  refine Only.bind (Only.bind (only_query hnetwork) fun _ => only_lift _) fun net => ?_
  refine Only.ite (only_fail _) ?_
  refine Only.bind (Only.bind (only_query hnodes) fun _ => Only.ite (only_fail _) (only_pure _))
    fun _ => ?_
  refine (only_lift _).bind fun outputs => (only_lift _).bind fun first => ?_
  exact Only.bind (Only.forM fun _ _ => only_query (hsecret _ _)) fun _ =>
    (only_query (hstate _ _)).bind fun _ => only_pure _

/-- What the statements of a refresh have, it has. -/
theorem only_refreshNetwork (coins : PartyDraws) (hnetwork : P (.getNetwork networkId))
    (hnodes : P (.getNodesByNetwork networkId))
    (hsecret : ∀ nodeId bytes, P (.updateNodeSecret networkId nodeId bytes))
    (hepoch : ∀ id epoch, P (.updateNodeEpoch id epoch)) :
    Only P (refreshNetwork networkId coins) := by
  refine Only.bind (Only.bind (only_query hnetwork) fun _ => only_lift _) fun net => ?_
  refine Only.ite (only_fail _) ?_
  refine Only.bind (Only.bind (only_query hnodes) fun _ => Only.ite (only_fail _) (only_pure _))
    fun rows => ?_
  refine (only_lift _).bind fun keys => (only_lift _).bind fun invariant => ?_
  refine Only.bind (Only.forM fun entry _ => ?_) fun _ => only_pure _
  exact (only_lift _).bind fun key => (only_query (hsecret _ _)).bind fun _ =>
    only_query (hepoch _ _)

/-- The creation of a network writes to no other network. -/
theorem within_createNetwork (req : CreateNetworkRequest) (draws : CreationDraws) :
    Only (Stmt.Within draws.networkId) (createNetwork req draws) := by
  have hnetwork : (Stmt.insertNetwork (newNetwork req draws)).Within draws.networkId := rfl
  have hnode (id : ParticipantId) :
      (Stmt.insertNode (newNode draws id)).Within draws.networkId := rfl
  have hkey (key : ApiKeyRow) : (Stmt.insertApiKey key).Within draws.networkId := trivial
  refine Only.ite (only_fail _) (Only.ite (only_fail _) ?_)
  exact (only_query hnetwork).bind fun _ =>
    (Only.forM fun id _ => only_query (hnode id)).bind fun _ =>
    (only_query (hkey _)).bind fun _ => only_pure _

/-- Generating keys stays within the network. -/
theorem within_runDkg (networkId : String) (coins : PartyDraws) :
    Only (Stmt.Within networkId) (runDkg networkId coins) :=
  only_runDkg coins trivial trivial (fun _ _ => rfl) fun _ _ => rfl

/-- So does a refresh. -/
theorem within_refreshNetwork (networkId : String) (coins : PartyDraws) :
    Only (Stmt.Within networkId) (refreshNetwork networkId coins) :=
  only_refreshNetwork coins trivial trivial (fun _ _ => rfl) fun _ _ => trivial

/-- Generating keys changes nothing that is public about the nodes. -/
theorem keepsNodes_runDkg (networkId : String) (coins : PartyDraws) :
    Only Stmt.KeepsNodes (runDkg networkId coins) :=
  only_runDkg coins trivial trivial (fun _ _ => trivial) fun _ _ => trivial

/-- Neither does a refresh. -/
theorem keepsNodes_refreshNetwork (networkId : String) (coins : PartyDraws) :
    Only Stmt.KeepsNodes (refreshNetwork networkId coins) :=
  only_refreshNetwork coins trivial trivial (fun _ _ => trivial) fun _ _ => trivial

end Requests

end Sigimora.Server
