import Sigimora.Server.KeyRows

/-!
# The audit trail

Two kinds of requests leave an entry in the audit log: the signing of a batch and
the revocation of a key. Each does so once and only when it succeeds, so the log
tells exactly which of these requests were answered, by whom they were made, and
in which order.
-/

namespace Sigimora.Server

open Handler Program

variable [Curve]

/-- What the log should say of an answered request. -/
def Call.audited (user : AuthenticatedUser) :
    (call : Call) → Except (Fault ApiError) call.Response → List AuditLogRow
  | batchSign networkId req _ auditedAt, result =>
    match result with
    | .ok response => [{
        id := 0
        timestamp := auditedAt
        action := "batch_sign"
        actor := user.id
        target := networkId
        details := s!"signed {response.signatures.length} messages with quorum {req.quorum}" }]
    | .error _ => []
  | deleteApiKey id auditedAt, result =>
    match result with
    | .ok _ => [{
        id := 0
        timestamp := auditedAt
        action := "api_key.delete"
        actor := user.id
        target := id
        details := "API key revoked" }]
    | .error _ => []
  | _, _ => []

/-- The log without the numbers of its entries. -/
def Db.auditTrail (db : Db) : List AuditLogRow := db.auditLog.map fun row => { row with id := 0 }

section Requests

variable {db : Db} {α : Type}

omit [Curve] in
/-- The trail depends on its table only. -/
theorem Db.auditTrail_of_agree {db' : Db} (h : Db.Agree .auditLog db db') :
    db'.auditTrail = db.auditTrail := by
  rw [auditTrail, show db'.auditLog = db.auditLog from h]
  rfl

omit [Curve] in
/-- A handler that does not write the table keeps the trail. -/
theorem WritesOnly.auditTrail {tables : List Table} {p : Handler α} (h : WritesOnly tables p)
    (htables : Table.auditLog ∉ tables) (db : Db) : (p.run exec db).2.auditTrail = db.auditTrail :=
  Db.auditTrail_of_agree (h.agree htables db)

omit [Curve] in
/-- An entry is always recorded. -/
theorem run_audit (action actor target details timestamp : String) (db : Db) :
    ∃ db', (audit action actor target details timestamp).run exec db = (.ok ⟨⟩, db') ∧
      db'.auditTrail = db.auditTrail ++ [⟨0, timestamp, action, actor, target, details⟩] := by
  refine ⟨_, rfl, ?_⟩
  simp only [Db.auditTrail, exec, Db.insertAuditLog, List.map_append, List.map_singleton]

variable [Cipher] [JsonIds] [Rfc3339]

/-- A request adds what it should to the log. -/
theorem Call.auditTrail_handle (user : AuthenticatedUser) (call : Call) (db : Db) :
    ((call.handle user).run exec db).2.auditTrail =
      db.auditTrail ++ call.audited user ((call.handle user).run exec db).1 := by
  cases call with
  | batchSign networkId req draws auditedAt =>
    have hbatch : WritesOnly [.ledger, .signedTxs] (Server.batchSign networkId req draws) :=
      writesOnly_batchSign (by decide) (by decide) networkId req draws
    have hkept := hbatch.auditTrail (by decide) db
    obtain ⟨result, db', hrun⟩ : ∃ result db',
        (Server.batchSign networkId req draws).run exec db = (result, db') := ⟨_, _, rfl⟩
    rw [hrun] at hkept
    cases result with
    | error e =>
      rw [handle, run_bind_of_error hrun, hkept]
      exact (List.append_nil _).symm
    | ok response =>
      obtain ⟨db'', haudit, htrail⟩ := run_audit "batch_sign" user.id networkId
        s!"signed {response.signatures.length} messages with quorum {req.quorum}" auditedAt db'
      rw [handle, run_bind_of_ok hrun, run_bind_of_ok haudit, ← hkept]
      exact htrail
  | deleteApiKey id auditedAt =>
    simp only [handle, Server.deleteApiKey]
    split
    · exact (List.append_nil _).symm
    have hdeleted : (query (.deleteApiKey id)).run exec db =
        (.ok (db.deleteApiKey id).1, (db.deleteApiKey id).2) := rfl
    rw [run_bind_of_ok hdeleted]
    split
    · exact (List.append_nil _).symm
    · obtain ⟨db', haudit, htrail⟩ := run_audit "api_key.delete" user.id id "API key revoked"
        auditedAt (db.deleteApiKey id).2
      rw [haudit]
      exact htrail
  | _ =>
    refine ((Call.writesOnly user _).auditTrail ?_ db).trans (List.append_nil _).symm
    simp [Call.tables]

end Requests

/-! ## Runs -/

section Runs

variable [Cipher] [JsonIds] [Rfc3339] {ι : Type}

/-- What the log should say of an event: the owner of the presented key made the request. -/
def ServerEvent.audited (db : Db) : ServerEvent ι → List AuditLogRow
  | .start _ _ => []
  | .request _ (.health _ _) => []
  | .request _ (.authorized authorization usedAt action) =>
    match authenticatedRow authorization db with
    | none => []
    | some row => action.audited ⟨row.id, row.role⟩
        ((ApiRequest.authorized authorization usedAt action).serve.run exec db).1

/-- What the log should say of a run. -/
def auditedRun : Db → List (ServerEvent ι) → List AuditLogRow
  | _, [] => []
  | db, event :: events => event.audited db ++ auditedRun (event.apply db) events

/-- One event adds what it should. -/
theorem ServerEvent.auditTrail_apply (event : ServerEvent ι) (db : Db) :
    (event.apply db).auditTrail = db.auditTrail ++ event.audited db := by
  cases event with
  | start bootstrapKeys draws =>
    rw [audited, List.append_nil]
    exact (writesOnly_ensureBootstrapKey bootstrapKeys draws).auditTrail (by decide) db
  | request who request =>
    cases request with
    | health elapsed elapsedAtEnd =>
      rw [audited, List.append_nil]
      exact (writesOnly_healthCheck elapsed elapsedAtEnd).auditTrail (by decide) db
    | authorized authorization usedAt call =>
      cases hrow : authenticatedRow authorization db with
      | none =>
        obtain ⟨e, hrun⟩ := ApiRequest.run_serve_of_none hrow usedAt call
        simp only [apply, audited, hrow, hrun, List.append_nil]
      | some row =>
        have hrun := ApiRequest.run_serve_of_some hrow usedAt call
        simp only [apply, audited, hrow, hrun]
        exact call.auditTrail_handle ⟨row.id, row.role⟩ (db.touchApiKey row.id usedAt)

/-- **The audit trail.** After every run the log has grown by exactly the entries of the
successful requests that are audited, in their order. -/
theorem auditTrail_after (db : Db) (events : List (ServerEvent ι)) :
    (Run.after ServerEvent.apply db events).auditTrail = db.auditTrail ++ auditedRun db events := by
  induction events generalizing db with
  | nil => exact (List.append_nil _).symm
  | cons event events ih =>
    rw [Run.after_cons, ih, event.auditTrail_apply, auditedRun, List.append_assoc]

end Runs

end Sigimora.Server
