import Sigimora.Server.Faults
import Sigimora.Server.Service

/-!
# The tables that requests write to

Every statement writes to one table at most, and every request to a few. The
other tables are as before, whatever the replies, and also if statements fail.
-/

namespace Sigimora.Server

open Handler Program

/-! ## Statements -/

inductive Table
  | networks
  | nodes
  | ledger
  | signedTxs
  | apiKeys
  | auditLog
  deriving DecidableEq

/-- The table that a statement writes to. -/
def Stmt.writes : Stmt → Option Table
  | .insertNetwork _ => some .networks
  | .updateNetworkState _ _ _ => some .networks
  | .insertNode _ => some .nodes
  | .updateNodeSecret _ _ _ => some .nodes
  | .updateNodeEpoch _ _ => some .nodes
  | .insertLedgerEntry _ => some .ledger
  | .insertSignedTx _ => some .signedTxs
  | .insertApiKey _ => some .apiKeys
  | .touchApiKey _ _ => some .apiKeys
  | .deleteApiKey _ => some .apiKeys
  | .insertAuditLog _ => some .auditLog
  | _ => none

/-- Two databases have the same rows in a table. -/
def Db.Agree : Table → Db → Db → Prop
  | .networks, db, db' => db'.networks = db.networks
  | .nodes, db, db' => db'.nodes = db.nodes
  | .ledger, db, db' => db'.ledger = db.ledger
  | .signedTxs, db, db' => db'.signedTxs = db.signedTxs
  | .apiKeys, db, db' => db'.apiKeys = db.apiKeys
  | .auditLog, db, db' => db'.auditLog = db.auditLog

/-- A database agrees with itself. -/
theorem Db.Agree.refl (table : Table) (db : Db) : Agree table db db := by
  cases table <;> rfl

/-- Agreeing twice is agreeing. -/
theorem Db.Agree.trans {table : Table} {db db' db'' : Db} (h : Agree table db db')
    (h' : Agree table db' db'') : Agree table db db'' := by
  cases table <;> exact Eq.trans h' h

/-- A statement leaves the tables alone that it does not write to. -/
theorem exec_agree {s : Stmt} {table : Table} (h : s.writes ≠ some table) (db : Db) :
    Db.Agree table db (exec s db).2 := by
  cases s with
  | insertNetwork net =>
    simp only [exec, Db.insertNetwork]
    split <;> cases table <;> first | rfl | exact (h rfl).elim
  | insertNode node =>
    simp only [exec, Db.insertNode]
    split
    · exact Db.Agree.refl table db
    · split <;> cases table <;> first | rfl | exact (h rfl).elim
  | insertLedgerEntry entry =>
    simp only [exec, Db.insertLedgerEntry]
    split <;> cases table <;> first | rfl | exact (h rfl).elim
  | insertSignedTx tx =>
    simp only [exec, Db.insertSignedTx]
    split
    · exact Db.Agree.refl table db
    · split <;> cases table <;> first | rfl | exact (h rfl).elim
  | insertApiKey key =>
    simp only [exec, Db.insertApiKey]
    split <;> cases table <;> first | rfl | exact (h rfl).elim
  | _ => cases table <;> first | rfl | exact (h rfl).elim

/-! ## Handlers -/

section Only

variable {α : Type} {P : Stmt → Prop}

/-- Computing runs no statements. -/
theorem only_lift (result : Outcome ApiError α) : Only P (lift result) := only_finish result

/-- Neither does returning a value. -/
theorem only_pure (a : α) : Only P (pure a : Handler α) := only_finish _

/-- Neither does failing. -/
theorem only_fail (e : ApiError) : Only P (fail e : Handler α) := only_finish _

/-- A query runs one statement. -/
theorem only_query {s : Stmt} (h : P s) : Only P (query s) := by
  refine only_call.mpr ⟨h, fun reply => ?_⟩
  cases reply with
  | error e => exact only_finish _
  | ok value => exact only_finish _

/-- So does one whose errors are internal. -/
theorem only_queryInternal {s : Stmt} (h : P s) : Only P (queryInternal s) := by
  refine only_call.mpr ⟨h, fun reply => ?_⟩
  cases reply with
  | error e => exact only_finish _
  | ok value => exact only_finish _

/-- So does one whose errors are ignored. -/
theorem only_attempt {s : Stmt} (h : P s) : Only P (attempt s) :=
  only_call.mpr ⟨h, fun _ => only_finish _⟩

end Only

/-- Whether a statement writes to none but the given tables. -/
def Stmt.writesIn (tables : List Table) (s : Stmt) : Bool := s.writes.all tables.contains

/-- The handler writes to none but the given tables. -/
abbrev WritesOnly {α : Type} (tables : List Table) (p : Handler α) : Prop :=
  Only (fun s : Stmt => s.writesIn tables = true) p

section WritesOnly

variable {α : Type} {tables : List Table} {table : Table} {p : Handler α}

/-- A statement does not write a table that is not among its own. -/
theorem Stmt.writes_ne_of_writesIn {s : Stmt} (h : s.writesIn tables = true)
    (htable : table ∉ tables) : s.writes ≠ some table := by
  intro hwrites
  rw [writesIn, hwrites, Option.all_some, List.contains_iff_mem] at h
  exact htable h

/-- A query writes what its statement writes. -/
theorem writesOnly_query {s : Stmt} (h : s.writesIn tables = true) : WritesOnly tables (query s) :=
  only_query h

/-- A statement that may fail writes its own table only. -/
theorem writesOnly_attempt {s : Stmt} (h : s.writesIn tables = true) :
    WritesOnly tables (attempt s) :=
  only_attempt h

/-- Fetching a network writes nothing. -/
theorem writesOnly_fetchNetwork (networkId : String) :
    WritesOnly tables (fetchNetwork networkId) :=
  (writesOnly_query rfl).bind fun _ => only_lift _

/-- Neither does loading its rows. -/
theorem writesOnly_loadNodes (networkId : String) (n : ℕ) :
    WritesOnly tables (loadNodes networkId n) :=
  (writesOnly_query rfl).bind fun _ => Only.ite (only_fail _) (only_pure _)

/-- A table that is not written stays the same. -/
theorem WritesOnly.agree (h : WritesOnly tables p) (htable : table ∉ tables) (db : Db) :
    Db.Agree table db (p.run exec db).2 :=
  Only.run (J := Db.Agree table db) h
    (fun _ store hs hJ => hJ.trans (exec_agree (Stmt.writes_ne_of_writesIn hs htable) store))
    (Db.Agree.refl table db)

/-- The same holds if statements fail. -/
theorem WritesOnly.agree_faulty (h : WritesOnly tables p) (htable : table ∉ tables) (db : Db)
    (faults : Faults DbError) : Db.Agree table db (p.run execFaulty (db, faults)).2.1 :=
  Only.run_faulty (J := Db.Agree table db) h
    (fun _ store hs hJ => hJ.trans (exec_agree (Stmt.writes_ne_of_writesIn hs htable) store))
    (Db.Agree.refl table db) faults

end WritesOnly

/-! ## Requests -/

variable [Curve]

/-- The tables that a request writes to, apart from authentication. -/
def Call.tables : Call → List Table
  | createNetwork _ _ => [.networks, .nodes, .apiKeys]
  | runDkg _ _ => [.networks, .nodes]
  | signMessage _ _ _ => [.ledger, .signedTxs]
  | batchSign _ _ _ _ => [.ledger, .signedTxs, .auditLog]
  | refreshNetwork _ _ => [.nodes]
  | createApiKey _ _ _ => [.apiKeys]
  | deleteApiKey _ _ => [.apiKeys, .auditLog]
  | _ => []

/-- Recording a signature writes the ledger and the transactions. -/
theorem writesOnly_recordSignature {networkId : String} {quorum : List ParticipantId}
    {msg : List UInt8} {sig : Ats.AtsSignature} {draws : MessageDraws} {tables : List Table}
    (hledger : Table.ledger ∈ tables) (htxs : Table.signedTxs ∈ tables) :
    WritesOnly tables (recordSignature networkId quorum msg sig draws) := by
  refine (writesOnly_query ?_).bind fun _ => writesOnly_query ?_
  · rw [Stmt.writesIn, Stmt.writes, Option.all_some, List.contains_iff_mem]
    exact hledger
  · rw [Stmt.writesIn, Stmt.writes, Option.all_some, List.contains_iff_mem]
    exact htxs

/-- A refresh writes the nodes only. -/
theorem writesOnly_refreshNetwork (networkId : String) (coins : PartyDraws) :
    WritesOnly [.nodes] (refreshNetwork networkId coins) := by
  refine (writesOnly_fetchNetwork _).bind fun _ => Only.ite (only_fail _) ?_
  refine (writesOnly_loadNodes _ _).bind fun _ => (only_lift _).bind fun _ =>
    (only_lift _).bind fun _ => Only.bind (Only.forM fun _ _ => ?_) fun _ => only_pure _
  exact (only_lift _).bind fun _ => (writesOnly_query rfl).bind fun _ => writesOnly_query rfl

omit [Curve] in
/-- Listing networks writes nothing. -/
theorem writesOnly_listNetworks [Rfc3339] (now : ℕ → String) : WritesOnly [] (listNetworks now) :=
  (writesOnly_query rfl).bind fun _ =>
    Only.mapM (fun _ => (writesOnly_query rfl).bind fun _ => only_pure _) _

/-- Creating a network writes it, its nodes and a key. -/
theorem writesOnly_createNetwork (req : CreateNetworkRequest) (draws : CreationDraws) :
    WritesOnly [.networks, .nodes, .apiKeys] (createNetwork req draws) := by
  refine Only.ite (only_fail _) (Only.ite (only_fail _) ?_)
  exact (writesOnly_query rfl).bind fun _ =>
    (Only.forM fun _ _ => writesOnly_query rfl).bind fun _ =>
    (writesOnly_query rfl).bind fun _ => only_pure _

/-- Generating keys writes the network and its nodes. -/
theorem writesOnly_runDkg (networkId : String) (coins : PartyDraws) :
    WritesOnly [.networks, .nodes] (runDkg networkId coins) := by
  refine (writesOnly_fetchNetwork _).bind fun _ => Only.ite (only_fail _) ?_
  exact (writesOnly_loadNodes _ _).bind fun _ => (only_lift _).bind fun _ =>
    (only_lift _).bind fun _ => (Only.forM fun _ _ => writesOnly_query rfl).bind fun _ =>
    (writesOnly_query rfl).bind fun _ => only_pure _

section Signing

variable [Cipher]

/-- Signing writes the ledger and the transactions. -/
theorem writesOnly_signMessage (networkId : String) (req : SignRequest) (draws : SignDraws) :
    WritesOnly [.ledger, .signedTxs] (signMessage networkId req draws) :=
  (writesOnly_fetchNetwork _).bind fun _ => (only_lift _).bind fun _ =>
    (only_lift _).bind fun _ => (writesOnly_loadNodes _ _).bind fun _ =>
    (only_lift _).bind fun _ => (only_lift _).bind fun _ => (only_lift _).bind fun _ =>
    (writesOnly_recordSignature (by decide) (by decide)).bind fun _ => only_pure _

/-- The signing itself does not touch the log. -/
theorem writesOnly_batchSign {tables : List Table} (hledger : Table.ledger ∈ tables)
    (htxs : Table.signedTxs ∈ tables) (networkId : String) (req : BatchSignRequest)
    (draws : BatchDraws) : WritesOnly tables (batchSign networkId req draws) := by
  refine Only.ite (only_fail _) (Only.ite (only_fail _) ?_)
  refine (writesOnly_fetchNetwork _).bind fun _ => (only_lift _).bind fun _ =>
    (writesOnly_loadNodes _ _).bind fun _ => (only_lift _).bind fun _ =>
    (only_lift _).bind fun _ => Only.bind (Only.mapM (fun entry => ?_) _) fun _ => only_pure _
  exact (only_lift _).bind fun _ => (only_lift _).bind fun _ =>
    (writesOnly_recordSignature hledger htxs).bind fun _ => only_pure _

end Signing

section Calls

variable [Cipher] [JsonIds] [Rfc3339]

/-- Requests without tables write nothing. -/
theorem Call.writesOnly_of_reads (user : AuthenticatedUser) {call : Call} (h : call.tables = []) :
    WritesOnly [] (call.handle user) := by
  cases call with
  | listNetworks now => exact writesOnly_listNetworks now
  | getNetwork id now =>
    exact (writesOnly_fetchNetwork _).bind fun _ => (writesOnly_query rfl).bind fun _ => only_pure _
  | getDkgStatus networkId =>
    exact (writesOnly_fetchNetwork _).bind fun _ => (only_lift _).bind fun _ => only_pure _
  | verifySignature networkId req =>
    exact (writesOnly_fetchNetwork _).bind fun _ => (only_lift _).bind fun _ =>
      (only_lift _).bind fun _ => (only_lift _).bind fun _ => only_pure _
  | traceSigners networkId req =>
    exact (writesOnly_fetchNetwork _).bind fun _ => (only_lift _).bind fun _ =>
      ((writesOnly_query rfl).bind fun _ => only_lift _).bind fun _ =>
      (only_lift _).bind fun _ => (only_lift _).bind fun _ =>
      (writesOnly_query rfl).bind fun _ => (only_lift _).bind fun _ =>
      (only_lift _).bind fun _ => only_pure _
  | getLedger networkId pagination now =>
    exact (writesOnly_fetchNetwork _).bind fun _ => (writesOnly_query rfl).bind fun _ =>
      (writesOnly_query rfl).bind fun _ => only_pure _
  | listNodes networkId pagination now =>
    exact (writesOnly_fetchNetwork _).bind fun _ => (writesOnly_query rfl).bind fun _ =>
      (writesOnly_query rfl).bind fun _ => only_pure _
  | getNode networkId nodeId now =>
    exact (writesOnly_query rfl).bind fun _ => (only_lift _).bind fun _ => only_pure _
  | listAuditLogs pagination =>
    refine Only.ite (only_fail _) ?_
    exact (writesOnly_query rfl).bind fun _ => (writesOnly_query rfl).bind fun _ => only_pure _
  | listApiKeys pagination now =>
    refine Only.ite (only_fail _) ?_
    exact (writesOnly_query rfl).bind fun _ => (writesOnly_query rfl).bind fun _ => only_pure _
  | _ => cases h

/-- A request writes to its tables. -/
theorem Call.writesOnly (user : AuthenticatedUser) (call : Call) :
    WritesOnly call.tables (call.handle user) := by
  cases call with
  | createNetwork req draws => exact writesOnly_createNetwork req draws
  | runDkg networkId coins => exact writesOnly_runDkg networkId coins
  | signMessage networkId req draws => exact writesOnly_signMessage networkId req draws
  | batchSign networkId req draws auditedAt =>
    have hbatch : WritesOnly [.ledger, .signedTxs, .auditLog]
        (Server.batchSign networkId req draws) :=
      writesOnly_batchSign (by decide) (by decide) networkId req draws
    exact hbatch.bind fun _ => (writesOnly_attempt rfl).bind fun _ => only_pure _
  | refreshNetwork networkId coins => exact writesOnly_refreshNetwork networkId coins
  | createApiKey req draws now =>
    refine Only.ite (only_fail _) (Only.ite (only_fail _) ?_)
    exact (writesOnly_query rfl).bind fun _ => only_pure _
  | deleteApiKey id auditedAt =>
    refine Only.ite (only_fail _) ?_
    exact (writesOnly_query rfl).bind fun _ => Only.ite (only_fail _) (writesOnly_attempt rfl)
  | _ => exact Call.writesOnly_of_reads user rfl

end Calls

omit [Curve] in
/-- The health check writes nothing. -/
theorem writesOnly_healthCheck (elapsed elapsedAtEnd : ℕ) :
    WritesOnly [] (healthCheck elapsed elapsedAtEnd) := by
  refine Only.bind (only_call.mpr ⟨rfl, fun reply => ?_⟩) fun _ =>
    (writesOnly_query rfl).bind fun _ => (writesOnly_query rfl).bind fun _ =>
    (writesOnly_query rfl).bind fun _ => (writesOnly_query rfl).bind fun _ => only_pure _
  cases reply <;> exact only_finish _

/-- Authentication notes when a key was used. -/
theorem writesOnly_fromRequestParts (authorization : Option String) (usedAt : String) :
    WritesOnly [.apiKeys] (AuthenticatedUser.fromRequestParts authorization usedAt) := by
  have hlookup : ∀ hash, WritesOnly [.apiKeys] (queryInternal (.getApiKeyByHash hash)) :=
    fun _ => only_queryInternal rfl
  refine (only_lift _).bind fun key => (hlookup _).bind fun row => ?_
  cases row with
  | none => exact only_fail _
  | some row =>
    exact Only.ite (only_fail _) ((writesOnly_attempt rfl).bind fun _ => only_pure _)

/-- A start registers keys. -/
theorem writesOnly_ensureBootstrapKey (bootstrapKeys : List String) (draws : BootstrapDraws) :
    WritesOnly [.apiKeys] (ensureBootstrapKey bootstrapKeys draws) := by
  have hregister : WritesOnly [.apiKeys] (bootstrapKeys.zipIdx.forM fun entry =>
      registerBootstrapKey entry.1 (draws.configured entry.2)) := by
    refine Only.forM fun entry _ => (writesOnly_query rfl).bind fun known =>
      Only.ite (only_pure _) ?_
    exact (only_lift _).bind fun start => writesOnly_query rfl
  refine (writesOnly_query rfl).bind fun keys => Only.ite ?_ hregister
  exact (writesOnly_query rfl).bind fun _ => hregister

end Sigimora.Server
