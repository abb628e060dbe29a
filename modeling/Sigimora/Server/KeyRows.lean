import Sigimora.Server.Requests
import Sigimora.Server.Tables

/-!
# What requests do to the stored API keys

Of all requests only three write to the table of API keys: the creation of a
network and of a key insert a row, and the revocation of a key deletes one. What
a request inserts, and which raw key its answer contains, is read off the request
and the database before it.
-/

namespace Sigimora.Server

open Handler Program

/-! ## Requests that leave the keys alone -/

/-- Whether the statement writes to the table of API keys. -/
def Stmt.writesKeys : Stmt → Bool
  | .insertApiKey _ => true
  | .touchApiKey _ _ => true
  | .deleteApiKey _ => true
  | _ => false

/-- A statement that writes no keys keeps them. -/
theorem exec_apiKeys {s : Stmt} (h : s.writesKeys = false) (db : Db) :
    (exec s db).2.apiKeys = db.apiKeys := by
  have hwrites : s.writes ≠ some .apiKeys := by
    intro hwrites
    cases s <;> cases hwrites <;> cases h
  exact exec_agree hwrites db

/-- The handler never writes to the table of API keys. -/
abbrev KeepsKeys {α : Type} (p : Handler α) : Prop := Only (fun s : Stmt => s.writesKeys = false) p

section KeepsKeys

variable {α β : Type}

/-- A handler that writes no keys keeps them. -/
theorem KeepsKeys.apiKeys {p : Handler α} (h : KeepsKeys p) (db : Db) :
    (p.run exec db).2.apiKeys = db.apiKeys :=
  Only.run (J := fun db' => db'.apiKeys = db.apiKeys) h
    (fun _ store hs hJ => (exec_apiKeys hs store).trans hJ) rfl

/-- A statement that may fail keeps the keys if it writes none. -/
theorem keepsKeys_attempt {s : Stmt} (h : s.writesKeys = false) : KeepsKeys (attempt s) :=
  only_attempt h

/-- A handler that does not write to the table never writes to it. -/
theorem WritesOnly.keepsKeys {tables : List Table} {p : Handler α} (h : WritesOnly tables p)
    (htable : Table.apiKeys ∉ tables) : KeepsKeys p :=
  h.mono fun s hs => by
    have hwrites := Stmt.writes_ne_of_writesIn hs htable
    cases s <;> first | rfl | exact (hwrites rfl).elim

end KeepsKeys

variable [Curve] {db : Db}

/-- Whether a request can write to the table of API keys, apart from authentication. -/
def Call.writesKeys : Call → Bool
  | createNetwork _ _ => true
  | createApiKey _ _ _ => true
  | deleteApiKey _ _ => true
  | _ => false

/-- All but the calls that write keys keep them. -/
theorem Call.keepsKeys [Cipher] [JsonIds] [Rfc3339] (user : AuthenticatedUser) {call : Call}
    (h : call.writesKeys = false) :
    KeepsKeys (call.handle user) := by
  refine (call.writesOnly user).keepsKeys fun htable => ?_
  cases call with
  | createNetwork req draws => cases h
  | createApiKey req draws now => cases h
  | deleteApiKey id auditedAt => cases h
  | _ => simp [tables] at htable

/-! ## Creating a network -/

/-- The nodes of a new network can be inserted. -/
theorem run_insertNodes_exists {draws : CreationDraws} {ids : List ParticipantId}
    (hnodup : ids.Nodup) (hnet : draws.networkId ∈ db.networks.map NetworkRow.id)
    (hnew : ∀ id ∈ ids, (id.toNat, draws.networkId) ∉
      db.nodes.map fun row => (row.nodeId, row.networkId)) :
    ∃ db', (ids.forM fun id => query (.insertNode (newNode draws id))).run exec db = (.ok (), db') ∧
      db'.apiKeys = db.apiKeys := by
  induction ids generalizing db with
  | nil => exact ⟨db, rfl, rfl⟩
  | cons id ids ih =>
    obtain ⟨hid, hnodup⟩ := List.nodup_cons.mp hnodup
    obtain ⟨next, hinsert, hnetworks, hnodes, hkeys⟩ :=
      Db.insertNode_exists (newNode draws id) (hnew id List.mem_cons_self) hnet
    have hnext : ∀ other ∈ ids, (other.toNat, draws.networkId) ∉
        next.nodes.map fun row => (row.nodeId, row.networkId) := by
      intro other hother hmem
      rw [hnodes, List.map_append, List.mem_append] at hmem
      rcases hmem with hmem | hmem
      · exact hnew other (List.mem_cons_of_mem _ hother) hmem
      · have hsame : other.toNat = id.toNat := (Prod.mk.inj (List.mem_singleton.mp hmem)).1
        exact hid (UInt16.toNat_inj.mp hsame ▸ hother)
    obtain ⟨db', hrest, hkeys'⟩ := ih hnodup (hnetworks ▸ hnet) hnext
    exact ⟨db', run_bind_eq_ok.mpr ⟨_, next, run_query_eq_ok.mpr hinsert, hrest⟩,
      hkeys'.trans hkeys⟩

/-- The key that a new network comes with. -/
def bootstrapKey (draws : CreationDraws) : String × ApiKeyRow :=
  generateApiKey ("network-" ++ String.ofList (draws.networkId.toList.take 8)) "admin"
    draws.apiKey

/-- The request is valid, and the ids that are drawn for it are new. -/
def Creatable (db : Db) (req : CreateNetworkRequest) (draws : CreationDraws) : Prop :=
  (2 ≤ req.n ∧ 0 < req.t ∧ req.t < req.n) ∧ draws.networkId ∉ db.networks.map NetworkRow.id ∧
    draws.apiKey.id ∉ db.apiKeys.map ApiKeyRow.id

instance (db : Db) (req : CreateNetworkRequest) (draws : CreationDraws) :
    Decidable (Creatable db req draws) := inferInstanceAs (Decidable ((_ ∧ _ ∧ _) ∧ _ ∧ _))

section Creation

variable {req : CreateNetworkRequest} {draws : CreationDraws}

/-- Up to its key a new network can be created. -/
theorem run_insertNetwork_exists (req : CreateNetworkRequest)
    (h : draws.networkId ∉ db.networks.map NetworkRow.id) :
    ∃ withNetwork withNodes,
      (query (.insertNetwork (newNetwork req draws))).run exec db = (.ok (), withNetwork) ∧
      ((participants req.n).forM fun id => query (.insertNode (newNode draws id))).run exec
        withNetwork = (.ok (), withNodes) ∧
      withNodes.apiKeys = db.apiKeys := by
  obtain ⟨withNetwork, hinsert, hnet, hnodes, hkeys⟩ :=
    Db.insertNetwork_exists (newNetwork req draws) h
  have hnone : ∀ id ∈ participants req.n, (id.toNat, draws.networkId) ∉
      withNetwork.nodes.map fun row => (row.nodeId, row.networkId) := by
    intro id _ hmem
    rw [hnodes] at hmem
    obtain ⟨row, hrow, hkey⟩ := List.mem_map.mp hmem
    exact h ((Prod.mk.inj hkey).2 ▸ db.nodes_reference row hrow)
  obtain ⟨withNodes, hloop, hkeys'⟩ :=
    run_insertNodes_exists (nodup_participants req.n) hnet hnone
  exact ⟨withNetwork, withNodes, run_query_eq_ok.mpr hinsert, hloop, hkeys'.trans hkeys⟩

/-- Creating a network inserts an administrator's key and returns it. -/
theorem run_createNetwork_of_creatable (h : Creatable db req draws) :
    ∃ response db', (createNetwork req draws).run exec db = (.ok response, db') ∧
      response.bootstrapApiKey = (bootstrapKey draws).1 ∧
      db'.apiKeys = db.apiKeys ++ [(bootstrapKey draws).2] := by
  obtain ⟨⟨hn, ht, htn⟩, hnetwork, hkey⟩ := h
  obtain ⟨withNetwork, withNodes, hinsert, hloop, hkeys⟩ :=
    run_insertNetwork_exists req hnetwork
  have hnew : (bootstrapKey draws).2.id ∉ withNodes.apiKeys.map ApiKeyRow.id := by
    rw [hkeys]
    exact hkey
  obtain ⟨db', hlast, hdb'⟩ := Db.insertApiKey_exists (bootstrapKey draws).2 hnew
  have hrun : ∃ response, (createNetwork req draws).run exec db = (.ok response, db') ∧
      response.bootstrapApiKey = (bootstrapKey draws).1 := by
    rw [createNetwork, if_neg (by omega), if_neg (by omega), run_bind_of_ok hinsert,
      run_bind_of_ok hloop]
    exact ⟨_, run_bind_of_ok (run_query_eq_ok.mpr hlast), rfl⟩
  obtain ⟨response, hrun, hkey⟩ := hrun
  exact ⟨response, db', hrun, hkey, by rw [hdb', hkeys]⟩

/-- A network that cannot be created leaves the keys alone. -/
theorem run_createNetwork_of_not_creatable (h : ¬ Creatable db req draws) :
    ∃ e db', (createNetwork req draws).run exec db = (.error e, db') ∧
      db'.apiKeys = db.apiKeys := by
  unfold createNetwork
  split
  · exact ⟨_, db, rfl, rfl⟩
  split
  · exact ⟨_, db, rfl, rfl⟩
  rename_i hn ht
  by_cases hnetwork : draws.networkId ∈ db.networks.map NetworkRow.id
  · have hrefused : exec (.insertNetwork (newNetwork req draws)) db =
        (.error (.constraint "UNIQUE constraint failed: networks.id"), db) := dif_pos hnetwork
    exact ⟨_, db, run_bind_of_error (run_query_of_error hrefused), rfl⟩
  · obtain ⟨withNetwork, withNodes, hinsert, hloop, hkeys⟩ :=
      run_insertNetwork_exists req hnetwork
    have hkey : (bootstrapKey draws).2.id ∈ withNodes.apiKeys.map ApiKeyRow.id := by
      rw [hkeys]
      by_contra hnew
      exact h ⟨by omega, hnetwork, hnew⟩
    have hrefused := run_query_of_error (s := .insertApiKey (bootstrapKey draws).2)
      (Db.insertApiKey_of_mem hkey)
    refine ⟨.err (.database (.constraint "UNIQUE constraint failed: api_keys.id")), withNodes,
      ?_, hkeys⟩
    rw [run_bind_of_ok hinsert, run_bind_of_ok hloop]
    exact run_bind_of_error hrefused

end Creation

/-! ## Creating and revoking keys -/

/-- An administrator asks for a key of a known role, and the id drawn for it is new. -/
def KeyCreatable (user : AuthenticatedUser) (db : Db) (req : CreateApiKeyRequest)
    (draws : ApiKeyDraws) : Prop :=
  user.role = "admin" ∧ (req.newRole = "admin" ∨ req.newRole = "user") ∧
    draws.id ∉ db.apiKeys.map ApiKeyRow.id

instance (user : AuthenticatedUser) (db : Db) (req : CreateApiKeyRequest) (draws : ApiKeyDraws) :
    Decidable (KeyCreatable user db req draws) := inferInstanceAs (Decidable (_ ∧ (_ ∨ _) ∧ _))

section Administration

variable [Rfc3339] {user : AuthenticatedUser} {req : CreateApiKeyRequest} {draws : ApiKeyDraws}

/-- A key that can be created is. -/
theorem run_createApiKey_of_creatable (h : KeyCreatable user db req draws) (now : String) :
    ∃ response db', (createApiKey user req draws now).run exec db = (.ok response, db') ∧
      response.rawKey = (generateApiKey req.label req.newRole draws).1 ∧
      db'.apiKeys = db.apiKeys ++ [(generateApiKey req.label req.newRole draws).2] := by
  obtain ⟨hadmin, hrole, hnew⟩ := h
  obtain ⟨db', hinsert, hkeys⟩ :=
    Db.insertApiKey_exists (generateApiKey req.label req.newRole draws).2 hnew
  have hknown : ¬ (req.newRole ≠ "admin" ∧ req.newRole ≠ "user") := by
    rintro ⟨h₁, h₂⟩
    exact hrole.elim h₁ h₂
  have hrun : ∃ response, (createApiKey user req draws now).run exec db = (.ok response, db') ∧
      response.rawKey = (generateApiKey req.label req.newRole draws).1 := by
    rw [createApiKey, if_neg (not_not.mpr hadmin), if_neg hknown]
    exact ⟨_, run_bind_of_ok (run_query_eq_ok.mpr hinsert), rfl⟩
  obtain ⟨response, hrun, hkey⟩ := hrun
  exact ⟨response, db', hrun, hkey, hkeys⟩

/-- A key that cannot be created is not. -/
theorem run_createApiKey_of_not_creatable (h : ¬ KeyCreatable user db req draws) (now : String) :
    ∃ e, (createApiKey user req draws now).run exec db = (.error e, db) := by
  unfold createApiKey
  split
  · exact ⟨_, rfl⟩
  split
  · exact ⟨_, rfl⟩
  rename_i hadmin hrole
  have hused : (generateApiKey req.label req.newRole draws).2.id ∈
      db.apiKeys.map ApiKeyRow.id := by
    by_contra hnew
    exact h ⟨not_not.mp hadmin, by tauto, hnew⟩
  have hrefused := run_query_of_error (s := .insertApiKey _) (Db.insertApiKey_of_mem hused)
  exact ⟨.err (.database (.constraint "UNIQUE constraint failed: api_keys.id")),
    run_bind_of_error hrefused⟩

omit [Curve] [Rfc3339] in
/-- Revoking a key inserts none. -/
theorem run_deleteApiKey_sublist (user : AuthenticatedUser) (id auditedAt : String) (db : Db) :
    ((deleteApiKey user id auditedAt).run exec db).2.apiKeys.Sublist db.apiKeys := by
  unfold deleteApiKey
  split
  · exact List.Sublist.refl _
  have hkept : (db.deleteApiKey id).2.apiKeys.Sublist db.apiKeys := List.filter_sublist
  have hdeleted : (query (.deleteApiKey id)).run exec db =
      (.ok (db.deleteApiKey id).1, (db.deleteApiKey id).2) := rfl
  rw [run_bind_of_ok hdeleted]
  split
  · exact hkept
  · have haudit : KeepsKeys (audit "api_key.delete" user.id id "API key revoked" auditedAt) :=
      keepsKeys_attempt rfl
    rw [haudit.apiKeys]
    exact hkept

end Administration

/-! ## Every request -/

/-- The raw key and the row that a request of a user inserts, if it inserts one. -/
def Call.inserted (user : AuthenticatedUser) (db : Db) :
    Call → List (String × ApiKeyRow)
  | createNetwork req draws => if Creatable db req draws then [bootstrapKey draws] else []
  | createApiKey req draws _ =>
    if KeyCreatable user db req draws then [generateApiKey req.label req.newRole draws] else []
  | _ => []

/-- A new key comes from a network that is created or from a request for a key. -/
theorem Call.mem_inserted {user : AuthenticatedUser} {call : Call} {key : String × ApiKeyRow}
    (h : key ∈ call.inserted user db) :
    (∃ req draws, call = createNetwork req draws ∧ Creatable db req draws ∧
      key = bootstrapKey draws) ∨
    ∃ req draws now, call = createApiKey req draws now ∧ KeyCreatable user db req draws ∧
      key = generateApiKey req.label req.newRole draws := by
  cases call with
  | createNetwork req draws =>
    simp only [inserted] at h
    split at h
    · rename_i hcreatable
      exact Or.inl ⟨req, draws, rfl, hcreatable, List.mem_singleton.mp h⟩
    · cases h
  | createApiKey req draws now =>
    simp only [inserted] at h
    split at h
    · rename_i hcreatable
      exact Or.inr ⟨req, draws, now, rfl, hcreatable, List.mem_singleton.mp h⟩
    · cases h
  | _ => cases h

/-- **Inserted keys.** A request inserts the rows that `inserted` says, deletes some others
perhaps, and is told exactly the raw keys of the inserted ones. -/
theorem Call.run_handle_keys [Cipher] [JsonIds] [Rfc3339] (user : AuthenticatedUser) (db : Db)
    (call : Call) :
    call.keysTold ((call.handle user).run exec db).1 = (call.inserted user db).map Prod.fst ∧
      ∃ kept, kept.Sublist db.apiKeys ∧
        ((call.handle user).run exec db).2.apiKeys =
          kept ++ (call.inserted user db).map Prod.snd := by
  cases call with
  | createNetwork req draws =>
    by_cases h : Creatable db req draws
    · obtain ⟨response, db', hrun, hkey, hkeys⟩ := run_createNetwork_of_creatable h
      simp only [inserted, if_pos h, handle, hrun, hkeys]
      exact ⟨congrArg (fun key => [key]) hkey, db.apiKeys, List.Sublist.refl _, rfl⟩
    · obtain ⟨e, db', hrun, hkeys⟩ := run_createNetwork_of_not_creatable h
      simp only [inserted, if_neg h, handle, hrun, hkeys]
      exact ⟨rfl, db.apiKeys, List.Sublist.refl _, (List.append_nil _).symm⟩
  | createApiKey req draws now =>
    by_cases h : KeyCreatable user db req draws
    · obtain ⟨response, db', hrun, hkey, hkeys⟩ := run_createApiKey_of_creatable h now
      simp only [inserted, if_pos h, handle, hrun, hkeys]
      exact ⟨congrArg (fun key => [key]) hkey, db.apiKeys, List.Sublist.refl _, rfl⟩
    · obtain ⟨e, hrun⟩ := run_createApiKey_of_not_creatable h now
      simp only [inserted, if_neg h, handle, hrun]
      exact ⟨rfl, db.apiKeys, List.Sublist.refl _, (List.append_nil _).symm⟩
  | deleteApiKey id auditedAt =>
    have htold : (Call.deleteApiKey id auditedAt).keysTold
        (((Call.deleteApiKey id auditedAt).handle user).run exec db).1 = [] := by
      unfold keysTold
      split <;> rfl
    exact ⟨htold, _, run_deleteApiKey_sublist user id auditedAt db, (List.append_nil _).symm⟩
  | _ =>
    refine ⟨?_, db.apiKeys, List.Sublist.refl _, ?_⟩
    · unfold keysTold
      split <;> rfl
    · rw [KeepsKeys.apiKeys (Call.keepsKeys user rfl)]
      exact (List.append_nil _).symm

/-- The two rows are those of one key; it may have been used in between. -/
def SameKey (row old : ApiKeyRow) : Prop :=
  row.id = old.id ∧ row.keyHash = old.keyHash ∧ row.role = old.role

omit [Curve] in
/-- Noting the use of a key changes nothing else about it. -/
theorem Db.mem_touchApiKey {id now : String} {row : ApiKeyRow}
    (h : row ∈ (db.touchApiKey id now).apiKeys) : ∃ old ∈ db.apiKeys, SameKey row old := by
  obtain ⟨old, hold, rfl⟩ := List.mem_map.mp h
  refine ⟨old, hold, ?_⟩
  split <;> exact ⟨rfl, rfl, rfl⟩

omit [Curve] in
/-- Noting the use of a key keeps all ids. -/
theorem Db.map_id_touchApiKey (id now : String) :
    (db.touchApiKey id now).apiKeys.map ApiKeyRow.id = db.apiKeys.map ApiKeyRow.id := by
  simp only [touchApiKey, List.map_map]
  exact List.map_congr_left fun row _ => by
    rw [Function.comp_apply]
    split <;> rfl

/-- That a key was used makes no difference to what is inserted. -/
theorem Call.inserted_touchApiKey (user : AuthenticatedUser) (id now : String) (call : Call) :
    call.inserted user (db.touchApiKey id now) = call.inserted user db := by
  have hkeys : (db.touchApiKey id now).apiKeys.map ApiKeyRow.id = db.apiKeys.map ApiKeyRow.id :=
    Db.map_id_touchApiKey id now
  cases call with
  | createNetwork req draws =>
    have hcreatable : Creatable (db.touchApiKey id now) req draws ↔ Creatable db req draws := by
      rw [Creatable, Creatable, hkeys]
      rfl
    exact if_congr hcreatable rfl rfl
  | createApiKey req draws _ =>
    have hcreatable : KeyCreatable user (db.touchApiKey id now) req draws ↔
        KeyCreatable user db req draws := by
      rw [KeyCreatable, KeyCreatable, hkeys]
    exact if_congr hcreatable rfl rfl
  | _ => rfl

/-- The raw key and the row that a request inserts, if it inserts one. -/
def ApiRequest.inserted (db : Db) : ApiRequest → List (String × ApiKeyRow)
  | health _ _ => []
  | authorized authorization _ action =>
    match authenticatedRow authorization db with
    | some row => action.inserted ⟨row.id, row.role⟩ db
    | none => []

/-- Only authenticated requests insert keys. -/
theorem ApiRequest.mem_inserted {request : ApiRequest} {key : String × ApiKeyRow}
    (h : key ∈ request.inserted db) :
    ∃ authorization usedAt call row, request = authorized authorization usedAt call ∧
      authenticatedRow authorization db = some row ∧
      key ∈ call.inserted ⟨row.id, row.role⟩ db := by
  cases request with
  | health elapsed elapsedAtEnd => cases h
  | authorized authorization usedAt action =>
    simp only [inserted] at h
    split at h
    · rename_i row hrow
      exact ⟨authorization, usedAt, action, row, rfl, hrow, h⟩
    · cases h

/-- A request without a stored key is refused. -/
theorem ApiRequest.run_serve_of_none [Cipher] [JsonIds] [Rfc3339] {authorization : Option String}
    (h : authenticatedRow authorization db = none) (usedAt : String) (call : Call) :
    ∃ e, (ApiRequest.authorized authorization usedAt call).serve.run exec db = (.error e, db) := by
  obtain ⟨e, hrefused⟩ := run_fromRequestParts_of_none h usedAt
  exact ⟨e, run_bind_of_error hrefused⟩

/-- A request with a stored key is handled for its owner. -/
theorem ApiRequest.run_serve_of_some [Cipher] [JsonIds] [Rfc3339] {authorization : Option String}
    {row : ApiKeyRow} (h : authenticatedRow authorization db = some row) (usedAt : String)
    (call : Call) : (ApiRequest.authorized authorization usedAt call).serve.run exec db =
      (call.handle ⟨row.id, row.role⟩).run exec (db.touchApiKey row.id usedAt) :=
  run_bind_of_ok (run_fromRequestParts_of_some h usedAt)

/-- The same of requests with their authentication. -/
theorem ApiRequest.run_serve_keys [Cipher] [JsonIds] [Rfc3339] (request : ApiRequest) (db : Db) :
    request.keysTold (request.serve.run exec db).1 = (request.inserted db).map Prod.fst ∧
      ∃ kept, (∀ row ∈ kept, ∃ old ∈ db.apiKeys, SameKey row old) ∧
        (request.serve.run exec db).2.apiKeys = kept ++ (request.inserted db).map Prod.snd := by
  cases request with
  | health elapsed elapsedAtEnd =>
    have hhealth : Db.Agree .apiKeys db ((healthCheck elapsed elapsedAtEnd).run exec db).2 :=
      (writesOnly_healthCheck elapsed elapsedAtEnd).agree List.not_mem_nil db
    exact ⟨rfl, db.apiKeys, fun row hrow => ⟨row, hrow, rfl, rfl, rfl⟩,
      Eq.trans hhealth (List.append_nil _).symm⟩
  | authorized authorization usedAt call =>
    cases hrow : authenticatedRow authorization db with
    | none =>
      obtain ⟨e, hrun⟩ := run_serve_of_none hrow usedAt call
      simp only [hrun, inserted, hrow]
      exact ⟨rfl, db.apiKeys, fun row hrow => ⟨row, hrow, rfl, rfl, rfl⟩,
        (List.append_nil _).symm⟩
    | some row =>
      have hrun := run_serve_of_some hrow usedAt call
      obtain ⟨htold, kept, hkept, hkeys⟩ := call.run_handle_keys ⟨row.id, row.role⟩
        (db.touchApiKey row.id usedAt)
      rw [Call.inserted_touchApiKey] at htold hkeys
      simp only [hrun, inserted, hrow]
      exact ⟨htold, kept, fun r hr => Db.mem_touchApiKey (hkept.subset hr), hkeys⟩

end Sigimora.Server
