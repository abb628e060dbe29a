import Sigimora.Server.KeyRows
import Sigimora.Server.Lifecycle

/-!
# Administrative privilege

Keys have roles, and the handlers for administrators test the role of the key
that a request presents. The creation of a network, which is open to every
holder of a key, hands out an administrator's key as well. In runs without such
an escalation only administrators insert administrators' keys, and a principal
with users' keys never gets further.
-/

namespace Sigimora.Server

open Handler Program

variable [Curve] {ι : Type} {db : Db}

/-! ## Roles and escalations -/

/-- The role of the key that a request is authenticated with. -/
def ApiRequest.role (db : Db) : ApiRequest → Option String
  | health _ _ => none
  | authorized authorization _ _ => (authenticatedRow authorization db).map ApiKeyRow.role

/-- The key that a request presents. -/
def ApiRequest.presented : ApiRequest → Option String
  | health _ _ => none
  | authorized authorization _ _ =>
    match bearerKey authorization with
    | .ok key => some key
    | .error _ => none

/-- A network is created with a key that is not an administrator's. -/
def ServerEvent.Escalates (db : Db) : ServerEvent ι → Prop
  | .request _ (.authorized authorization _ (.createNetwork req draws)) =>
    (∃ row, authenticatedRow authorization db = some row ∧ row.role ≠ "admin") ∧
      Creatable db req draws
  | _ => False

/-- The raw keys that an event may store. -/
def ServerEvent.newKeys : ServerEvent ι → List String
  | .start bootstrapKeys draws =>
    (generateApiKey "bootstrap-admin" "admin" draws.first).1 :: bootstrapKeys
  | .request _ (.authorized _ _ (.createNetwork _ draws)) => [(bootstrapKey draws).1]
  | .request _ (.authorized _ _ (.createApiKey req draws _)) =>
    [(generateApiKey req.label req.newRole draws).1]
  | _ => []

/-- What a request inserts is the hash of one of the new keys of the event. -/
theorem ApiRequest.mem_newKeys {request : ApiRequest} {key : String × ApiKeyRow}
    (h : key ∈ request.inserted db) (who : ι) :
    key.1 ∈ (ServerEvent.request who request).newKeys ∧ key.2.keyHash = sha256Hex key.1 := by
  obtain ⟨_, _, _, row, rfl, hrow, hkey⟩ := mem_inserted h
  rcases Call.mem_inserted hkey with ⟨_, _, rfl, _, rfl⟩ | ⟨_, _, _, rfl, _, rfl⟩
  · exact ⟨List.mem_singleton_self _, rfl⟩
  · exact ⟨List.mem_singleton_self _, rfl⟩

/-- Who inserts a key is an administrator, or escalates. -/
theorem ApiRequest.role_of_inserted {request : ApiRequest} {key : String × ApiKeyRow}
    (h : key ∈ request.inserted db) (who : ι) :
    request.role db = some "admin" ∨ (ServerEvent.request who request).Escalates db := by
  obtain ⟨_, _, _, row, rfl, hrow, hkey⟩ := mem_inserted h
  simp only [role, hrow, Option.map_some, Option.some.injEq]
  by_cases hadmin : row.role = "admin"
  · exact Or.inl hadmin
  rcases Call.mem_inserted hkey with ⟨_, _, rfl, hcreatable, _⟩ | ⟨_, _, _, rfl, hcreatable, _⟩
  · exact Or.inr ⟨⟨row, hrow, hadmin⟩, hcreatable⟩
  · exact Or.inl hcreatable.1

/-- Who escalates inserts an administrator's key, under a new id. -/
theorem ApiRequest.inserted_of_escalates {who : ι} {request : ApiRequest}
    (h : (ServerEvent.request who request).Escalates db) :
    request.role db ≠ some "admin" ∧ ∃ key ∈ request.inserted db,
      key.2.id ∉ db.apiKeys.map ApiKeyRow.id ∧ key.2.role = "admin" := by
  unfold ServerEvent.Escalates at h
  split at h
  · rename_i authorization usedAt req draws heq
    cases heq
    obtain ⟨⟨row, hrow, hrole⟩, hcreatable⟩ := h
    refine ⟨?_, bootstrapKey draws, ?_, hcreatable.2.2, rfl⟩
    · simp only [role, hrow, Option.map_some, ne_eq, Option.some.injEq]
      exact hrole
    · simp only [inserted, hrow, Call.inserted, if_pos hcreatable]
      exact List.mem_singleton_self _
  · exact h.elim

/-! ## The keys of a start -/

/-- Every key that is stored now was stored before, or is one of the given ones. -/
def KeysFrom (keys : List String) (db db' : Db) : Prop :=
  ∀ row ∈ db'.apiKeys, row ∈ db.apiKeys ∨ ∃ key ∈ keys, row.keyHash = sha256Hex key

/-- Of the writes to the table of keys only insertions of the given ones. -/
def StoresOnly (keys : List String) : Stmt → Prop
  | .insertApiKey row => ∃ key ∈ keys, row.keyHash = sha256Hex key
  | s => s.writesKeys = false

/-- A statement adds no keys but those it stores. -/
theorem KeysFrom.exec {keys : List String} {db' : Db} (h : KeysFrom keys db db') {s : Stmt}
    (hs : StoresOnly keys s) : KeysFrom keys db (Server.exec s db').2 := by
  cases s with
  | insertApiKey new =>
    intro row hrow
    simp only [Server.exec, Db.insertApiKey] at hrow
    split at hrow
    · exact h row hrow
    · rcases List.mem_append.mp hrow with hrow | hrow
      · exact h row hrow
      · rw [List.mem_singleton.mp hrow]
        exact Or.inr hs
  | _ =>
    rw [KeysFrom, exec_apiKeys hs]
    exact h

/-- A start stores the first key, if there is none, and the configured ones. -/
theorem only_ensureBootstrapKey {bootstrapKeys keys : List String} {draws : BootstrapDraws}
    (hfirst : (generateApiKey "bootstrap-admin" "admin" draws.first).1 ∈ keys)
    (hconfigured : ∀ key ∈ bootstrapKeys, key ∈ keys) :
    Only (StoresOnly keys) (ensureBootstrapKey bootstrapKeys draws) := by
  have hread (s : Stmt) (hs : StoresOnly keys s) : Only (StoresOnly keys) (query s) := only_query hs
  have hregister : Only (StoresOnly keys) (bootstrapKeys.zipIdx.forM fun entry =>
      registerBootstrapKey entry.1 (draws.configured entry.2)) := by
    refine Only.forM fun entry hentry => ?_
    have hkey := hconfigured entry.1 (List.fst_mem_of_mem_zipIdx hentry)
    refine (hread (.getApiKeyByHash _) rfl).bind fun known => Only.ite (only_pure _) ?_
    exact (only_lift _).bind fun start => hread (.insertApiKey _) ⟨entry.1, hkey, rfl⟩
  have hinsert := hread (.insertApiKey (generateApiKey "bootstrap-admin" "admin" draws.first).2)
    ⟨_, hfirst, rfl⟩
  refine (hread .listApiKeys rfl).bind fun keys => Only.ite ?_ hregister
  exact hinsert.bind fun _ => hregister

/-- A start adds no keys but those it generates. -/
theorem keysFrom_ensureBootstrapKey (bootstrapKeys : List String) (draws : BootstrapDraws) :
    KeysFrom (ServerEvent.start bootstrapKeys draws : ServerEvent ι).newKeys db
      ((ensureBootstrapKey bootstrapKeys draws).run exec db).2 :=
  Only.run (J := KeysFrom _ db)
    (only_ensureBootstrapKey List.mem_cons_self fun _ => List.mem_cons_of_mem _)
    (fun _ _ hs hkeys => hkeys.exec hs) fun _ hold => Or.inl hold

/-! ## Inserted keys -/

variable [Cipher] [JsonIds] [Rfc3339]

/-- Administrators' keys that the event inserts as a request are inserted by an administrator. -/
def ServerEvent.InsertsAsAdmin (db : Db) : ServerEvent ι → Prop
  | .start _ _ => True
  | .request _ req => ∀ row ∈ (req.serve.run exec db).2.apiKeys,
      row.id ∉ db.apiKeys.map ApiKeyRow.id → row.role = "admin" → req.role db = some "admin"

/-- A row under a new id is one that the request has inserted. -/
theorem ApiRequest.mem_inserted_of_new {request : ApiRequest} {row : ApiKeyRow}
    (hrow : row ∈ (request.serve.run exec db).2.apiKeys)
    (hnew : row.id ∉ db.apiKeys.map ApiKeyRow.id) : ∃ key ∈ request.inserted db, key.2 = row := by
  obtain ⟨_, kept, hkept, hkeys⟩ := request.run_serve_keys db
  rw [hkeys] at hrow
  rcases List.mem_append.mp hrow with hrow | hrow
  · obtain ⟨old, hold, hid, _⟩ := hkept row hrow
    exact absurd (hid ▸ List.mem_map_of_mem hold) hnew
  · exact List.mem_map.mp hrow

/-- An event inserts keys as an administrator just if it does not escalate. -/
theorem ServerEvent.insertsAsAdmin_iff (db : Db) (event : ServerEvent ι) :
    event.InsertsAsAdmin db ↔ ¬ event.Escalates db := by
  cases event with
  | start bootstrapKeys draws => exact ⟨fun _ h => h, fun _ => trivial⟩
  | request who request =>
    constructor
    · intro h hescalates
      obtain ⟨hrole, key, hkey, hnew, hadmin⟩ := ApiRequest.inserted_of_escalates hescalates
      obtain ⟨_, kept, _, hkeys⟩ := request.run_serve_keys db
      refine hrole (h key.2 ?_ hnew hadmin)
      rw [hkeys]
      exact List.mem_append_right _ (List.mem_map_of_mem hkey)
    · intro h row hrow hnew _
      obtain ⟨key, hkey, _⟩ := ApiRequest.mem_inserted_of_new hrow hnew
      exact (ApiRequest.role_of_inserted hkey who).resolve_right h

/-! ## Principals -/

section Principals

variable [DecidableEq ι]

/-- The database and the keys that a principal holds, after an event. -/
def ServerEvent.observe (who : ι) (s : Db × List String) (event : ServerEvent ι) :
    Db × List String :=
  (event.apply s.1, s.2 ++ event.told who s.1)

/-- The principal presents keys that it holds, and no key is drawn or configured that
has the hash of one of these. -/
structure ServerEvent.Plays (who : ι) (s : Db × List String) (event : ServerEvent ι) : Prop where
  presented : ∀ request, event = .request who request →
    ∀ key, request.presented = some key → key ∈ s.2
  fresh : ∀ key ∈ event.newKeys, ∀ held ∈ s.2, sha256Hex key ≠ sha256Hex held

/-- None of the keys belongs to an administrator. -/
def UserKeys (s : Db × List String) : Prop :=
  ∀ key ∈ s.2, ∀ row ∈ s.1.apiKeys, row.keyHash = sha256Hex key → row.role ≠ "admin"

/-- No request for administrators succeeds with one of the keys. -/
def NoAdministration (s : Db × List String) : Prop :=
  ∀ key ∈ s.2, ∀ usedAt call response db', call.isAdministrative = true →
    (ApiRequest.authorized (some ("Bearer " ++ key)) usedAt call).serve.run exec s.1 ≠
      (.ok response, db')

omit [Cipher] [JsonIds] [Rfc3339] in
/-- A presented key that is stored is stored with its hash. -/
theorem authenticatedRow_eq_some {authorization : Option String} {row : ApiKeyRow}
    (h : authenticatedRow authorization db = some row) :
    ∃ key, bearerKey authorization = .ok key ∧ row ∈ db.apiKeys ∧ row.keyHash = sha256Hex key := by
  unfold authenticatedRow at h
  split at h
  · rename_i key hkey
    exact ⟨key, hkey, Db.keyHash_of_getApiKeyByHash h⟩
  · cases h

/-- Requests for administrators succeed for administrators only. -/
theorem Call.role_of_administrative {call : Call} (h : call.isAdministrative = true)
    {user : AuthenticatedUser} {response : call.Response} {db' : Db}
    (hrun : (call.handle user).run exec db = (.ok response, db')) : user.role = "admin" := by
  by_contra hrole
  cases call with
  | listAuditLogs pagination =>
    simp only [handle, Server.listAuditLogs, if_pos hrole] at hrun
    cases hrun
  | createApiKey req draws now =>
    simp only [handle, Server.createApiKey, if_pos hrole] at hrun
    cases hrun
  | listApiKeys pagination now =>
    simp only [handle, Server.listApiKeys, if_pos hrole] at hrun
    cases hrun
  | deleteApiKey id auditedAt =>
    simp only [handle, Server.deleteApiKey, if_pos hrole] at hrun
    cases hrun
  | _ => cases h

/-- Users' keys are refused by the handlers for administrators. -/
theorem UserKeys.noAdministration {s : Db × List String} (h : UserKeys s) :
    NoAdministration s := by
  intro key hkey usedAt call response db' hcall hrun
  obtain ⟨user, store, hauthenticate, hhandle⟩ := run_bind_eq_ok.mp hrun
  cases hrow : authenticatedRow (some ("Bearer " ++ key)) s.1 with
  | none =>
    obtain ⟨e, hrefused⟩ := run_fromRequestParts_of_none hrow usedAt
    rw [hrefused] at hauthenticate
    cases hauthenticate
  | some row =>
    rw [run_fromRequestParts_of_some hrow usedAt] at hauthenticate
    cases hauthenticate
    obtain ⟨presented, hbearer, hmem, hhash⟩ := authenticatedRow_eq_some hrow
    have hpresented : presented = key := by
      rw [bearerKey, Outcome.okOr_some, Outcome.ok_bind, stripPrefix_append, Outcome.okOr_some,
        Outcome.ok_bind] at hbearer
      dsimp only at hbearer
      split at hbearer
      · cases hbearer
      · exact (Except.ok.inj hbearer).symm
    subst hpresented
    exact h _ hkey row hmem hhash (Call.role_of_administrative hcall hhandle)

omit [DecidableEq ι] in
/-- Every row was there before the event, or stores the hash of a new key. -/
theorem ServerEvent.mem_apiKeys_apply {event : ServerEvent ι} {row : ApiKeyRow}
    (h : row ∈ (event.apply db).apiKeys) :
    (∃ old ∈ db.apiKeys, SameKey row old) ∨ ∃ key ∈ event.newKeys, row.keyHash = sha256Hex key := by
  cases event with
  | start bootstrapKeys draws =>
    rcases keysFrom_ensureBootstrapKey (ι := ι) bootstrapKeys draws row h with hold | hnew
    · exact Or.inl ⟨row, hold, rfl, rfl, rfl⟩
    · exact Or.inr hnew
  | request who request =>
    obtain ⟨_, kept, hkept, hkeys⟩ := request.run_serve_keys db
    rw [apply, hkeys] at h
    rcases List.mem_append.mp h with hold | hnew
    · exact Or.inl (hkept row hold)
    · obtain ⟨key, hkey, rfl⟩ := List.mem_map.mp hnew
      exact Or.inr ⟨key.1, ApiRequest.mem_newKeys hkey who⟩

section Steps

variable {who : ι} {s : Db × List String}

omit [Cipher] [JsonIds] [Rfc3339] [DecidableEq ι] in
/-- A request with a user's key is none of an administrator. -/
theorem UserKeys.role_ne_admin (h : UserKeys s) {request : ApiRequest}
    (hpresented : ∀ key, request.presented = some key → key ∈ s.2) :
    request.role s.1 ≠ some "admin" := by
  intro hrole
  cases request with
  | health elapsed elapsedAtEnd => cases hrole
  | authorized authorization usedAt action =>
    obtain ⟨row, hrow, hadmin⟩ := Option.map_eq_some_iff.mp hrole
    obtain ⟨key, hbearer, hmem, hhash⟩ := authenticatedRow_eq_some hrow
    have hkey : key ∈ s.2 := hpresented key (by simp only [ApiRequest.presented, hbearer])
    exact h key hkey row hmem hhash hadmin

/-- Without an escalation a principal with users' keys is told no key. -/
theorem UserKeys.told_eq_nil (h : UserKeys s) {event : ServerEvent ι} (hplays : event.Plays who s)
    (hguard : ¬ event.Escalates s.1) : event.told who s.1 = [] := by
  cases event with
  | start bootstrapKeys draws => rfl
  | request actor request =>
    by_cases hactor : actor = who
    · subst hactor
      have hnone : request.inserted s.1 = [] := by
        rw [List.eq_nil_iff_forall_not_mem]
        intro key hkey
        exact h.role_ne_admin (hplays.presented request rfl)
          ((ApiRequest.role_of_inserted hkey actor).resolve_right hguard)
      rw [ServerEvent.told, if_pos rfl, (request.run_serve_keys s.1).1, hnone, List.map_nil]
    · rw [ServerEvent.told, if_neg hactor]

/-- Without an escalation users' keys stay users' keys. -/
theorem UserKeys.observe (h : UserKeys s) {event : ServerEvent ι} (hplays : event.Plays who s)
    (hguard : ¬ event.Escalates s.1) : UserKeys (event.observe who s) := by
  intro held hheld row hrow hhash
  simp only [ServerEvent.observe, h.told_eq_nil hplays hguard, List.append_nil] at hheld hrow
  rcases ServerEvent.mem_apiKeys_apply hrow with ⟨old, hold, _, hsame, hrole⟩ | ⟨key, hkey, hnew⟩
  · rw [hrole]
    exact h held hheld old hold (hsame ▸ hhash)
  · exact absurd (hnew.symm.trans hhash) (hplays.fresh key hkey held hheld)

end Steps

/-- A principal that holds only users' keys at some time never succeeds with a request for
administrators afterwards, with whatever keys it is told. -/
def UsersStayUsers (db : Db) (events : List (ServerEvent ι)) : Prop :=
  ∀ done rest, done ++ rest = events → ∀ who held,
    UserKeys (Run.after ServerEvent.apply db done, held) →
    Run.Guarded (ServerEvent.observe who) (ServerEvent.Plays who)
      (Run.after ServerEvent.apply db done, held) rest →
    Run.Throughout (ServerEvent.observe who) NoAdministration
      (Run.after ServerEvent.apply db done, held) rest

/-- Only administrators insert administrators' keys, and users never get such keys. -/
def PrivilegeKept (db : Db) (events : List (ServerEvent ι)) : Prop :=
  Run.Guarded ServerEvent.apply ServerEvent.InsertsAsAdmin db events ∧ UsersStayUsers db events

/-- **Privilege.** A run keeps administrators' keys among administrators exactly when no
network is created in it with the key of a user. -/
theorem privilegeKept_iff {events : List (ServerEvent ι)} :
    PrivilegeKept db events ↔
      Run.Guarded ServerEvent.apply (fun db event => ¬ event.Escalates db) db events := by
  rw [PrivilegeKept, Run.guarded_congr ServerEvent.insertsAsAdmin_iff, and_iff_left_iff_imp]
  rintro hguard done rest rfl who held hstart hplays
  have hview (s : Db × List String) (event : ServerEvent ι) :
      (event.observe who s).1 = event.apply s.1 := rfl
  have hescalates := Run.guarded_of_view Prod.fst hview
    (s := (Run.after ServerEvent.apply db done, held)) hguard.append_right
  have hboth : Run.Guarded (ServerEvent.observe who)
      (fun s event => event.Plays who s ∧ ¬ event.Escalates s.1)
      (Run.after ServerEvent.apply db done, held) rest :=
    fun done event hdone => ⟨hplays done event hdone, hescalates done event hdone⟩
  have hkeys := Run.throughout_of_guarded (P := UserKeys)
    (fun s event hs hG => hs.observe hG.1 hG.2) hstart hboth
  exact fun done hdone => (hkeys done hdone).noAdministration

end Principals

/-! ### An escalation -/

/-- Times are never read. -/
@[reducible] def unreadTimes : Rfc3339 where
  parse _ := none

/-- Lists of ids are never read. -/
@[reducible] def unreadIds : JsonIds where
  fromStr _ := none

/-- The server is started, and its administrator creates a key for a user. -/
def userKeyCreated : List (ServerEvent String) :=
  [.start [] ⟨⟨List.replicate 16 0, "k0", ""⟩, fun _ => ("", "")⟩,
    .request "admin" (.authorized (some "Bearer sigimora_AAAAAAAAAAAAAAAA") ""
      (.createApiKey ⟨"user", none⟩ ⟨List.replicate 16 1, "k1", ""⟩ ""))]

/-- The user creates a network. -/
def userCreatesNetwork : ServerEvent String :=
  .request "user" (.authorized (some "Bearer sigimora_BBBBBBBBBBBBBBBB") ""
    (.createNetwork ⟨2, 1⟩ { twoNodeDraws with apiKey := ⟨List.replicate 16 2, "k2", ""⟩ }))

/-- The database before the user's request. -/
def userKeyDb : Db :=
  letI := exponentCurve
  letI := plainCipher
  letI := unreadTimes
  letI := unreadIds
  Run.after ServerEvent.apply Db.empty userKeyCreated

omit [Curve] [Cipher] [JsonIds] [Rfc3339] in
/-- The key of the user was made for a user. -/
theorem userKeys_userKeyDb :
    letI := exponentCurve
    UserKeys (userKeyDb, ["sigimora_BBBBBBBBBBBBBBBB"]) := by
  let := exponentCurve
  have hroles : (userKeyDb.apiKeys.filter fun row =>
      row.keyHash = sha256Hex "sigimora_BBBBBBBBBBBBBBBB").map ApiKeyRow.role = ["user"] := by
    decide +kernel
  intro key hkey row hrow hhash hadmin
  rw [List.mem_singleton.mp hkey] at hhash
  have hfound : row ∈ userKeyDb.apiKeys.filter fun row =>
      row.keyHash = sha256Hex "sigimora_BBBBBBBBBBBBBBBB" :=
    List.mem_filter.mpr ⟨hrow, decide_eq_true hhash⟩
  have hmem := List.mem_map_of_mem (f := ApiKeyRow.role) hfound
  rw [hroles, hadmin] at hmem
  revert hmem
  decide

omit [Curve] [Cipher] [JsonIds] [Rfc3339] in
/-- The user's request is no administrator's and succeeds. -/
theorem escalates_userCreatesNetwork :
    letI := exponentCurve
    userCreatesNetwork.Escalates userKeyDb := by
  let := exponentCurve
  have hrole : (authenticatedRow (some "Bearer sigimora_BBBBBBBBBBBBBBBB") userKeyDb).map
      ApiKeyRow.role = some "user" := by
    decide +kernel
  obtain ⟨row, hrow, huser⟩ := Option.map_eq_some_iff.mp hrole
  refine ⟨⟨row, hrow, ?_⟩, ?_⟩
  · rw [huser]
    decide
  · decide +kernel

omit [Curve] [Cipher] [JsonIds] [Rfc3339] in
/-- The user presents its own key, and the key of the network is new. -/
theorem plays_userCreatesNetwork :
    letI := exponentCurve
    letI := plainCipher
    letI := unreadTimes
    letI := unreadIds
    userCreatesNetwork.Plays "user" (userKeyDb, ["sigimora_BBBBBBBBBBBBBBBB"]) := by
  let := exponentCurve
  let := plainCipher
  let := unreadTimes
  let := unreadIds
  constructor
  · intro request hrequest key hkey
    cases hrequest
    have hpresented : bearerKey (some "Bearer sigimora_BBBBBBBBBBBBBBBB") =
        .ok "sigimora_BBBBBBBBBBBBBBBB" := by
      decide +kernel
    simp only [ApiRequest.presented, hpresented, Option.some.injEq] at hkey
    exact List.mem_singleton.mpr hkey.symm
  · exact List.forall_iff_forall_mem.mp (by decide +kernel)

omit [Curve] [Cipher] [JsonIds] [Rfc3339] in
/-- With the key of the network the user lists all keys. -/
theorem not_noAdministration_userCreatesNetwork :
    letI := exponentCurve
    letI := plainCipher
    letI := unreadTimes
    letI := unreadIds
    ¬ NoAdministration
      (userCreatesNetwork.observe "user" (userKeyDb, ["sigimora_BBBBBBBBBBBBBBBB"])) := by
  let := exponentCurve
  let := plainCipher
  let := unreadTimes
  let := unreadIds
  have hheld : "sigimora_CCCCCCCCCCCCCCCC" ∈
      (userCreatesNetwork.observe "user" (userKeyDb, ["sigimora_BBBBBBBBBBBBBBBB"])).2 := by
    decide +kernel
  have hlisted : (((ApiRequest.authorized (some ("Bearer " ++ "sigimora_CCCCCCCCCCCCCCCC")) ""
      (.listApiKeys ⟨none, none⟩ fun _ => "")).serve).run exec
      (userCreatesNetwork.observe "user" (userKeyDb, ["sigimora_BBBBBBBBBBBBBBBB"])).1).1.isOk =
        true := by
    decide +kernel
  obtain ⟨response, hlisted⟩ := exists_ok_of_isOk hlisted
  intro h
  exact h _ hheld _ _ _ _ rfl hlisted

omit [Curve] [Cipher] [JsonIds] [Rfc3339] in
/-- The user, who has created a network and so inserted an administrator's key, lists all
keys with it. -/
theorem user_becomes_administrator :
    letI := exponentCurve
    letI := plainCipher
    letI := unreadTimes
    letI := unreadIds
    ¬ Run.Guarded ServerEvent.apply ServerEvent.InsertsAsAdmin Db.empty
        (userKeyCreated ++ [userCreatesNetwork]) ∧
      ¬ UsersStayUsers Db.empty (userKeyCreated ++ [userCreatesNetwork]) := by
  let := exponentCurve
  let := plainCipher
  let := unreadTimes
  let := unreadIds
  constructor
  · intro h
    have hinserts := h userKeyCreated userCreatesNetwork (List.prefix_refl _)
    exact (ServerEvent.insertsAsAdmin_iff userKeyDb userCreatesNetwork).mp hinserts
      escalates_userCreatesNetwork
  · intro h
    have hrun := h userKeyCreated [userCreatesNetwork] rfl "user" _ userKeys_userKeyDb
      (Run.guarded_cons.mpr ⟨plays_userCreatesNetwork, Run.guarded_nil⟩)
    have hrefused := hrun [userCreatesNetwork] (List.prefix_refl _)
    rw [Run.after_cons, Run.after_nil] at hrefused
    exact not_noAdministration_userCreatesNetwork hrefused

end Sigimora.Server
