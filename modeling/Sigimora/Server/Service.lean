import Sigimora.Library.Run
import Sigimora.Server.ApiKeyRoutes
import Sigimora.Server.Provenance

/-!
# The service

All requests of the API, each with its draws, and the runs of the server: it is
started, possibly several times, and answers one request after another. A request
is made by a principal, who learns the keys in the answer.
-/

namespace Sigimora.Server

open Handler

/-- The requests behind authentication. -/
inductive Call
  | createNetwork (req : CreateNetworkRequest) (draws : CreationDraws)
  | listNetworks (now : ℕ → String)
  | getNetwork (id now : String)
  | runDkg (networkId : String) (coins : PartyDraws)
  | getDkgStatus (networkId : String)
  | signMessage (networkId : String) (req : SignRequest) (draws : SignDraws)
  | batchSign (networkId : String) (req : BatchSignRequest) (draws : BatchDraws)
      (auditedAt : String)
  | verifySignature (networkId : String) (req : VerifyRequest)
  | traceSigners (networkId : String) (req : TraceRequest)
  | refreshNetwork (networkId : String) (coins : PartyDraws)
  | getLedger (networkId : String) (pagination : PaginationParams) (now : ℕ → String)
  | listNodes (networkId : String) (pagination : PaginationParams) (now : ℕ → String)
  | getNode (networkId : String) (nodeId : ParticipantId) (now : String)
  | listAuditLogs (pagination : PaginationParams)
  | createApiKey (req : CreateApiKeyRequest) (draws : ApiKeyDraws) (now : String)
  | listApiKeys (pagination : PaginationParams) (now : ℕ → String)
  | deleteApiKey (id auditedAt : String)

/-- What a request is answered with. -/
@[reducible] def Call.Response : Call → Type
  | createNetwork _ _ => CreateNetworkResponse
  | listNetworks _ => List NetworkInfo
  | getNetwork _ _ => NetworkInfo
  | runDkg _ _ => DkgStatusResponse
  | getDkgStatus _ => DkgStatusResponse
  | signMessage _ _ _ => SignResponse
  | batchSign _ _ _ _ => BatchSignResponse
  | verifySignature _ _ => VerifyResponse
  | traceSigners _ _ => TraceResponse
  | refreshNetwork _ _ => RefreshResponse
  | getLedger _ _ _ => LedgerResponse
  | listNodes _ _ _ => PaginatedNodesResponse
  | getNode _ _ _ => NodeInfo
  | listAuditLogs _ => PaginatedAuditLogsResponse
  | createApiKey _ _ _ => CreateApiKeyResponse
  | listApiKeys _ _ => PaginatedApiKeysResponse
  | deleteApiKey _ _ => Unit

/-- The raw keys in an answer. -/
def Call.keysIn : (call : Call) → call.Response → List String
  | createNetwork _ _, response => [response.bootstrapApiKey]
  | createApiKey _ _ _, response => [response.rawKey]
  | _, _ => []

/-- The raw keys that the answer to a request tells, if it is no error. -/
def Call.keysTold (call : Call) : Except (Fault ApiError) call.Response → List String
  | .ok response => call.keysIn response
  | .error _ => []

/-- The requests for administrators. -/
def Call.isAdministrative : Call → Bool
  | listAuditLogs _ => true
  | createApiKey _ _ _ => true
  | listApiKeys _ _ => true
  | deleteApiKey _ _ => true
  | _ => false

/-- A request to the API; only the health check needs no key. -/
inductive ApiRequest
  | health (elapsed elapsedAtEnd : ℕ)
  | authorized (authorization : Option String) (usedAt : String) (call : Call)

@[reducible] def ApiRequest.Response : ApiRequest → Type
  | health _ _ => HealthResponse
  | authorized _ _ call => call.Response

def ApiRequest.keysTold : (request : ApiRequest) →
    Except (Fault ApiError) request.Response → List String
  | health _ _, _ => []
  | authorized _ _ call, result => call.keysTold result

variable [Curve] [Cipher] [JsonIds] [Rfc3339]

/-- Handle a request for an authenticated user. -/
def Call.handle (user : AuthenticatedUser) : (call : Call) → Handler call.Response
  | createNetwork req draws => Server.createNetwork req draws
  | listNetworks now => Server.listNetworks now
  | getNetwork id now => Server.getNetwork id now
  | runDkg networkId coins => Server.runDkg networkId coins
  | getDkgStatus networkId => Server.getDkgStatus networkId
  | signMessage networkId req draws => Server.signMessage networkId req draws
  | batchSign networkId req draws auditedAt => do
    -- The user that acts is known only here.
    let response ← Server.batchSign networkId req draws
    audit "batch_sign" user.id networkId
      s!"signed {response.signatures.length} messages with quorum {req.quorum}" auditedAt
    return response
  | verifySignature networkId req => Server.verifySignature networkId req
  | traceSigners networkId req => Server.traceSigners networkId req
  | refreshNetwork networkId coins => Server.refreshNetwork networkId coins
  | getLedger networkId pagination now => Server.getLedger networkId pagination now
  | listNodes networkId pagination now => Server.listNodes networkId pagination now
  | getNode networkId nodeId now => Server.getNode networkId nodeId now
  | listAuditLogs pagination => Server.listAuditLogs user pagination
  | createApiKey req draws now => Server.createApiKey user req draws now
  | listApiKeys pagination now => Server.listApiKeys user pagination now
  | deleteApiKey id auditedAt => Server.deleteApiKey user id auditedAt

/-- Authenticate a request and handle it. -/
def ApiRequest.serve : (request : ApiRequest) → Handler request.Response
  | health elapsed elapsedAtEnd => healthCheck elapsed elapsedAtEnd
  | authorized authorization usedAt call => do
    let user ← AuthenticatedUser.fromRequestParts authorization usedAt
    call.handle user

/-! ## Runs -/

/-- What happens to a server: it is started, or a principal makes a request. -/
inductive ServerEvent (ι : Type)
  | start (bootstrapKeys : List String) (draws : BootstrapDraws)
  | request (who : ι) (request : ApiRequest)

variable {ι : Type}

/-- The database after an event. -/
def ServerEvent.apply (db : Db) : ServerEvent ι → Db
  | .start bootstrapKeys draws => ((ensureBootstrapKey bootstrapKeys draws).run exec db).2
  | .request _ req => (req.serve.run exec db).2

/-- The raw keys that a principal is told in an event. -/
def ServerEvent.told [DecidableEq ι] (who : ι) (db : Db) : ServerEvent ι → List String
  | .start _ _ => []
  | .request actor req => if actor = who then req.keysTold (req.serve.run exec db).1 else []

end Sigimora.Server
