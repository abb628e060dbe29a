import Sigimora.Server.Authentication
import Sigimora.Server.QueryRoutes

/-!
# API keys

The handlers for administrators, which create, list and revoke keys and show the
audit log, and the keys that the server registers at its start. Each of these
handlers begins with a test of the role.
-/

namespace Sigimora.Server

open Handler

/-- Log a security audit event; that the entry cannot be stored is no error. -/
def audit (action actor target details timestamp : String) : Handler Unit :=
  attempt (.insertAuditLog { id := 0, timestamp, action, actor, target, details })

/-! ## Keys -/

structure CreateApiKeyRequest where
  label : String
  role : Option String

structure ApiKeyInfo where
  id : String
  keyPrefix : String
  label : String
  role : String
  createdAt : String
  lastUsedAt : Option String

structure CreateApiKeyResponse where
  apiKey : ApiKeyInfo
  rawKey : String

structure PaginatedApiKeysResponse where
  apiKeys : List ApiKeyInfo
  total : ℕ
  offset : ℕ
  limit : ℕ

/-- The role of a key to be created. -/
def CreateApiKeyRequest.newRole (req : CreateApiKeyRequest) : String := req.role.getD "user"

/-- `POST /api/v1/api-keys`: create a new API key. -/
def createApiKey [Curve] [Rfc3339] (user : AuthenticatedUser) (req : CreateApiKeyRequest)
    (draws : ApiKeyDraws) (now : String) : Handler CreateApiKeyResponse := do
  if user.role ≠ "admin" then fail (.unauthorized "only admins can create API keys")
  else if req.newRole ≠ "admin" ∧ req.newRole ≠ "user" then
    fail (.badRequest "role must be 'admin' or 'user'")
  else
    let (rawKey, row) := generateApiKey req.label req.newRole draws
    query (.insertApiKey row)
    return {
      apiKey := {
        id := row.id
        keyPrefix := row.keyPrefix
        label := row.label
        role := row.role
        createdAt := storedTime row.createdAt now
        lastUsedAt := none }
      rawKey }

/-- `GET /api/v1/api-keys`: list all API keys. -/
def listApiKeys [Rfc3339] (user : AuthenticatedUser) (pagination : PaginationParams)
    (now : ℕ → String) : Handler PaginatedApiKeysResponse := do
  if user.role ≠ "admin" then fail (.unauthorized "only admins can list API keys")
  else
    let total ← query .countApiKeys
    let rows ← query (.listApiKeysPaginated pagination.offset pagination.limit)
    let apiKeys := rows.zipIdx.map fun entry =>
      { id := entry.1.id
        keyPrefix := entry.1.keyPrefix
        label := entry.1.label
        role := entry.1.role
        createdAt := storedTime entry.1.createdAt (now entry.2)
        lastUsedAt := entry.1.lastUsedAt.bind Rfc3339.parse }
    return { apiKeys, total, offset := pagination.offset, limit := pagination.limit }

/-- `DELETE /api/v1/api-keys/:id`: revoke an API key; the answer is `{ "deleted": true }`. -/
def deleteApiKey (user : AuthenticatedUser) (id auditedAt : String) : Handler Unit := do
  if user.role ≠ "admin" then fail (.unauthorized "only admins can delete API keys")
  else
    let deleted ← query (.deleteApiKey id)
    if deleted = false then fail (.notFound s!"api key {id} not found")
    else audit "api_key.delete" user.id id "API key revoked" auditedAt

/-! ## Audit log -/

structure AuditLogEntry where
  id : ℕ
  timestamp : String
  action : String
  actor : String
  target : String
  details : String

structure PaginatedAuditLogsResponse where
  entries : List AuditLogEntry
  total : ℕ
  offset : ℕ
  limit : ℕ

/-- `GET /api/v1/audit-logs`: list audit log entries. -/
def listAuditLogs (user : AuthenticatedUser) (pagination : PaginationParams) :
    Handler PaginatedAuditLogsResponse := do
  if user.role ≠ "admin" then fail (.unauthorized "only admins can view audit logs")
  else
    let total ← query .countAuditLogs
    let rows ← query (.listAuditLogsPaginated pagination.offset pagination.limit)
    let entries := rows.map fun r =>
      { id := r.id
        timestamp := r.timestamp
        action := r.action
        actor := r.actor
        target := r.target
        details := r.details }
    return { entries, total, offset := pagination.offset, limit := pagination.limit }

/-! ## Bootstrap keys -/

/-- The first characters of a text that take up the given number of bytes, or all of
them; there are none when the number ends within a character. -/
def takeBytes : List Char → ℕ → Option (List Char)
  | [], _ => some []
  | c :: cs, size =>
    if size = 0 then some []
    else if c.utf8Size ≤ size then (takeBytes cs (size - c.utf8Size)).map (c :: ·)
    else none

/-- The draws at the start of the server: those for the first key, and for each
configured key its id and the time. -/
structure BootstrapDraws where
  first : ApiKeyDraws
  configured : ℕ → String × String

/-- Register one configured key, if it is new. -/
def registerBootstrapKey [Curve] (rawKey : String) (draws : String × String) : Handler Unit := do
  let hash := sha256Hex rawKey
  let known ← query (.getApiKeyByHash hash)
  if known.isSome then return
  else
    let start ← lift (Outcome.expect "byte index 16 is not a char boundary"
      (takeBytes rawKey.toList 16))
    query (.insertApiKey {
      id := draws.1
      keyHash := hash
      keyPrefix := String.ofList start
      label := "env-bootstrap"
      role := "admin"
      createdAt := draws.2
      lastUsedAt := none })

/-- Ensure at least one bootstrap admin API key exists. -/
def ensureBootstrapKey [Curve] (bootstrapKeys : List String) (draws : BootstrapDraws) :
    Handler Unit := do
  let keys ← query .listApiKeys
  if keys.isEmpty then
    let (_, row) := generateApiKey "bootstrap-admin" "admin" draws.first
    query (.insertApiKey row)
  bootstrapKeys.zipIdx.forM fun entry => registerBootstrapKey entry.1 (draws.configured entry.2)

end Sigimora.Server
