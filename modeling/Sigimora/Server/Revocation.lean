import Sigimora.Server.Privilege

/-!
# Revoked keys

A key is revoked by deleting its row. No request brings the row back, unless it
generates the key anew; but the server registers the configured keys at every start,
and so a configured key that was revoked is there again after the next one.
-/

namespace Sigimora.Server

open Handler Program

/-- The hashes of the stored keys. -/
def Db.keyHashes (db : Db) : List String := db.apiKeys.map ApiKeyRow.keyHash

variable [Curve] {db : Db}

omit [Curve] in
/-- A hash is not found just if no key has it. -/
theorem Db.getApiKeyByHash_eq_none {hash : String} :
    db.getApiKeyByHash hash = none ↔ hash ∉ db.keyHashes := by
  rw [Db.getApiKeyByHash, List.find?_eq_none, Db.keyHashes, List.mem_map]
  simp only [decide_eq_true_eq]
  exact ⟨fun h ⟨row, hrow, hhash⟩ => h row hrow hhash, fun h row hrow hhash => h ⟨row, hrow, hhash⟩⟩

/-! ## Starts -/

/-- What a start adds: rows whose hashes were not stored, each the hash of one of the keys. -/
def Registers (keys : List String) (db db' : Db) : Prop :=
  ∃ added, db'.keyHashes = db.keyHashes ++ added ∧ added.Nodup ∧
    ∀ hash ∈ added, hash ∉ db.keyHashes ∧ ∃ key ∈ keys, hash = sha256Hex key

section Starts

variable {keys : List String} {db' db'' : Db}

/-- No key is registered at first. -/
theorem Registers.refl (keys : List String) (db : Db) : Registers keys db db :=
  ⟨[], (List.append_nil _).symm, List.nodup_nil, nofun⟩

/-- Registering twice is registering. -/
theorem Registers.trans (h : Registers keys db db') (h' : Registers keys db' db'') :
    Registers keys db db'' := by
  obtain ⟨added, hadded, hnodup, hnew⟩ := h
  obtain ⟨added', hadded', hnodup', hnew'⟩ := h'
  rw [hadded] at hadded' hnew'
  refine ⟨added ++ added', by rw [hadded', List.append_assoc], ?_, ?_⟩
  · refine List.nodup_append.mpr ⟨hnodup, hnodup', ?_⟩
    rintro hash hmem _ hmem' rfl
    exact (hnew' hash hmem').1 (List.mem_append_right _ hmem)
  · intro hash hmem
    rcases List.mem_append.mp hmem with hmem | hmem
    · exact hnew hash hmem
    · exact ⟨fun hold => (hnew' hash hmem).1 (List.mem_append_left _ hold), (hnew' hash hmem).2⟩

/-- A row whose hash is not stored yet. -/
theorem registers_insertApiKey {row : ApiKeyRow} {key : String} (hkey : key ∈ keys)
    (hhash : row.keyHash = sha256Hex key) (hnew : row.keyHash ∉ db.keyHashes) :
    Registers keys db (exec (.insertApiKey row) db).2 := by
  change Registers keys db (db.insertApiKey row).2
  by_cases hid : row.id ∈ db.apiKeys.map ApiKeyRow.id
  · rw [Db.insertApiKey_of_mem hid]
    exact Registers.refl keys db
  · obtain ⟨db', hinsert, hkeys⟩ := Db.insertApiKey_exists row hid
    refine ⟨[row.keyHash], ?_, List.nodup_singleton _, ?_⟩
    · rw [hinsert, Db.keyHashes, hkeys, List.map_append]
      rfl
    · intro hash hmem
      rw [List.mem_singleton.mp hmem]
      exact ⟨hnew, key, hkey, hhash⟩

omit [Curve] in
/-- A query does what its statement does. -/
theorem run_query_snd (s : Stmt) (db : Db) : ((query s).run exec db).2 = (exec s db).2 := by
  rw [query, run_call]
  cases (exec s db).1 <;> rfl

/-- A configured key is registered if its hash is not stored. -/
theorem registers_registerBootstrapKey {key : String} (hkey : key ∈ keys) (draws : String × String)
    (db : Db) : Registers keys db ((registerBootstrapKey key draws).run exec db).2 := by
  have hread : (query (.getApiKeyByHash (sha256Hex key))).run exec db =
      (.ok (db.getApiKeyByHash (sha256Hex key)), db) := rfl
  rw [registerBootstrapKey, run_bind_of_ok hread]
  split
  · exact Registers.refl keys db
  · next hknown =>
    have hnew : sha256Hex key ∉ db.keyHashes := by
      rw [← Db.getApiKeyByHash_eq_none, ← Option.not_isSome_iff_eq_none]
      exact hknown
    cases Outcome.expect "byte index 16 is not a char boundary" (takeBytes key.toList 16) with
    | error e => exact Registers.refl keys db
    | ok start =>
      rw [lift, ok_bind, run_query_snd]
      exact registers_insertApiKey hkey rfl hnew

/-- The raw keys that a start can store: the first key, if there is none, and the configured
ones. -/
def startKeys (db : Db) (bootstrapKeys : List String) (draws : BootstrapDraws) : List String :=
  (if db.apiKeys.isEmpty then [(generateApiKey "bootstrap-admin" "admin" draws.first).1] else []) ++
    bootstrapKeys

/-- **Starts.** A start stores nothing but these keys, and none of a hash that is stored. -/
theorem registers_ensureBootstrapKey (bootstrapKeys : List String) (draws : BootstrapDraws)
    (db : Db) :
    Registers (startKeys db bootstrapKeys draws) db
      ((ensureBootstrapKey bootstrapKeys draws).run exec db).2 := by
  have hread : (query .listApiKeys).run exec db = (.ok db.listApiKeys, db) := rfl
  have hloop (db' : Db) (h : Registers (startKeys db bootstrapKeys draws) db db') :
      Registers (startKeys db bootstrapKeys draws) db
        ((bootstrapKeys.zipIdx.forM fun entry =>
          registerBootstrapKey entry.1 (draws.configured entry.2)).run exec db').2 := by
    refine run_forM_rec (J := Registers (startKeys db bootstrapKeys draws) db) ?_ h
    intro entry hentry store hstore
    exact hstore.trans (registers_registerBootstrapKey
      (List.mem_append_right _ (List.fst_mem_of_mem_zipIdx hentry)) _ store)
  rw [ensureBootstrapKey, run_bind_of_ok hread]
  have hempty : db.listApiKeys.isEmpty = db.apiKeys.isEmpty := by
    rw [Bool.eq_iff_iff, List.isEmpty_iff_length_eq_zero, List.isEmpty_iff_length_eq_zero,
      Db.listApiKeys, List.length_insertionSort]
  split
  · next hnone =>
    rw [hempty] at hnone
    have hfirst : (generateApiKey "bootstrap-admin" "admin" draws.first).1 ∈
        startKeys db bootstrapKeys draws := by
      rw [startKeys, if_pos hnone]
      exact List.mem_append_left _ (List.mem_singleton_self _)
    have hnew : (generateApiKey "bootstrap-admin" "admin" draws.first).2.keyHash ∉
        db.keyHashes := by
      rw [Db.keyHashes, List.isEmpty_iff.mp hnone]
      exact List.not_mem_nil
    have hinserted : Registers (startKeys db bootstrapKeys draws) db
        ((query (.insertApiKey (generateApiKey "bootstrap-admin" "admin" draws.first).2)).run
          exec db).2 := by
      rw [run_query_snd]
      exact registers_insertApiKey hfirst rfl hnew
    refine run_bind_rec (J := Registers (startKeys db bootstrapKeys draws) db) hinserted
      fun _ db' hinsert => hloop db' ?_
    have hdb' : ((query (.insertApiKey (generateApiKey "bootstrap-admin" "admin"
        draws.first).2)).run exec db).2 = db' := congrArg Prod.snd hinsert
    rwa [hdb'] at hinserted
  · exact hloop db (Registers.refl _ db)

end Starts

/-! ## Requests -/

section Requests

variable [Cipher] [JsonIds] [Rfc3339]

/-- The hashes of the rows that a request has deleted, if it is answered with success. -/
def ApiRequest.deleted (db : Db) : ApiRequest → List String
  | .authorized authorization usedAt (.deleteApiKey id auditedAt) =>
    match ((ApiRequest.authorized authorization usedAt (.deleteApiKey id auditedAt)).serve.run
      exec db).1 with
    | .ok _ => (db.apiKeys.filter fun row => row.id = id).map ApiKeyRow.keyHash
    | .error _ => []
  | _ => []

omit [Curve] [Cipher] [JsonIds] [Rfc3339] in
/-- That a key was used changes none of its other columns. -/
theorem Db.map_keyHash_touchApiKey (db : Db) (id now : String) (p : ApiKeyRow → Bool)
    (hp : ∀ row usedAt, p { row with lastUsedAt := usedAt } = p row) :
    ((db.touchApiKey id now).apiKeys.filter p).map ApiKeyRow.keyHash =
      (db.apiKeys.filter p).map ApiKeyRow.keyHash := by
  have hpred : (p ∘ fun row : ApiKeyRow =>
      if row.id = id then { row with lastUsedAt := some now } else row) = p := by
    funext row
    rw [Function.comp_apply]
    split
    · exact hp row _
    · rfl
  rw [touchApiKey, List.filter_map, hpred, List.map_map]
  refine List.map_congr_left fun row _ => ?_
  rw [Function.comp_apply]
  split <;> rfl

omit [Curve] [Cipher] [JsonIds] [Rfc3339] in
/-- Noting the use of a key keeps all hashes. -/
theorem Db.keyHashes_touchApiKey (id now : String) :
    (db.touchApiKey id now).keyHashes = db.keyHashes := by
  have hall := Db.map_keyHash_touchApiKey db id now (fun _ => true) fun _ _ => rfl
  rwa [List.filter_true, List.filter_true] at hall

omit [Curve] [Cipher] [JsonIds] [Rfc3339] in
/-- Deleting a row takes its hash out. -/
theorem Db.keyHashes_deleteApiKey (db : Db) (id : String) :
    ((db.deleteApiKey id).2.keyHashes ++
      (db.apiKeys.filter fun row => row.id = id).map ApiKeyRow.keyHash).Perm db.keyHashes := by
  have hkept : (db.deleteApiKey id).2.apiKeys =
      db.apiKeys.filter fun row => !decide (row.id = id) :=
    List.filter_congr fun row _ => decide_not
  have hperm := List.filter_append_perm (fun row : ApiKeyRow => decide (row.id = id)) db.apiKeys
  rw [Db.keyHashes, Db.keyHashes, ← List.map_append, hkept]
  exact (List.perm_append_comm.trans hperm).map _

omit [Curve] [Cipher] [JsonIds] [Rfc3339] in
/-- A revocation that succeeds deletes the row. -/
theorem keyHashes_of_deleteApiKey {user : AuthenticatedUser} {id auditedAt : String} {db' : Db}
    (h : (deleteApiKey user id auditedAt).run exec db = (.ok (), db')) :
    db'.keyHashes = (db.deleteApiKey id).2.keyHashes := by
  unfold deleteApiKey at h
  split at h
  · cases h
  have hdeleted : (query (.deleteApiKey id)).run exec db =
      (.ok (db.deleteApiKey id).1, (db.deleteApiKey id).2) := rfl
  rw [run_bind_of_ok hdeleted] at h
  split at h
  · cases h
  · have haudit : KeepsKeys (audit "api_key.delete" user.id id "API key revoked" auditedAt) :=
      keepsKeys_attempt rfl
    have hsame := haudit.apiKeys (db.deleteApiKey id).2
    rw [h] at hsame
    exact congrArg (List.map ApiKeyRow.keyHash) hsame

/-- A call removes hashes and adds those of the keys that it tells. -/
theorem Call.keyHashes_handle (user : AuthenticatedUser) (call : Call) (db : Db) :
    ∃ kept, kept.Sublist db.keyHashes ∧ ((call.handle user).run exec db).2.keyHashes =
      kept ++ (call.keysTold ((call.handle user).run exec db).1).map sha256Hex := by
  obtain ⟨htold, kept, hkept, hkeys⟩ := call.run_handle_keys user db
  refine ⟨kept.map ApiKeyRow.keyHash, hkept.map _, ?_⟩
  rw [Db.keyHashes, hkeys, htold, List.map_append, List.map_map, List.map_map]
  congr 1
  refine List.map_congr_left fun key hkey => ?_
  rcases Call.mem_inserted hkey with ⟨_, _, _, _, rfl⟩ | ⟨_, _, _, _, _, rfl⟩ <;> rfl

/-- A revocation that succeeds takes the hashes of the row out of what is kept. -/
theorem count_kept_lt_of_deleteApiKey {user : AuthenticatedUser} {id auditedAt : String}
    {kept : List String} {response : Unit}
    (hok : (((Call.deleteApiKey id auditedAt).handle user).run exec db).1 = .ok response)
    (hkeys : (((Call.deleteApiKey id auditedAt).handle user).run exec db).2.keyHashes =
      kept ++ ((Call.deleteApiKey id auditedAt).keysTold
        (((Call.deleteApiKey id auditedAt).handle user).run exec db).1).map sha256Hex)
    {hash : String}
    (hhash : hash ∈ (db.apiKeys.filter fun row => row.id = id).map ApiKeyRow.keyHash) :
    kept.count hash < db.keyHashes.count hash := by
  -- all that is left is what the statement has left
  have hleft := keyHashes_of_deleteApiKey (Prod.ext hok rfl)
  have htold : (Call.deleteApiKey id auditedAt).keysTold
      (((Call.deleteApiKey id auditedAt).handle user).run exec db).1 = [] := by
    rw [hok]
    rfl
  rw [htold, List.map_nil, List.append_nil] at hkeys
  have hsame : kept = (db.deleteApiKey id).2.keyHashes := hkeys.symm.trans hleft
  have hperm := Db.keyHashes_deleteApiKey db id
  rw [← hsame] at hperm
  rw [← hperm.count_eq, List.count_append]
  exact Nat.lt_add_of_pos_right (List.count_pos_iff.mpr hhash)

/-- **Requests.** A request stores the hashes of the keys that it is told, and a revocation
takes those of the deleted rows out. -/
theorem ApiRequest.keyHashes_serve (request : ApiRequest) (db : Db) :
    ∃ kept, kept.Sublist db.keyHashes ∧
      (request.serve.run exec db).2.keyHashes =
        kept ++ (request.keysTold (request.serve.run exec db).1).map sha256Hex ∧
      ∀ hash ∈ request.deleted db, kept.count hash < db.keyHashes.count hash := by
  cases request with
  | health elapsed elapsedAtEnd =>
    have hhealth : Db.Agree .apiKeys db ((healthCheck elapsed elapsedAtEnd).run exec db).2 :=
      (writesOnly_healthCheck elapsed elapsedAtEnd).agree List.not_mem_nil db
    refine ⟨db.keyHashes, List.Sublist.refl _, ?_, nofun⟩
    exact (congrArg (List.map ApiKeyRow.keyHash) hhealth).trans (List.append_nil _).symm
  | authorized authorization usedAt call =>
    cases hrow : authenticatedRow authorization db with
    | none =>
      obtain ⟨e, hrun⟩ := run_serve_of_none hrow usedAt call
      refine ⟨db.keyHashes, List.Sublist.refl _, ?_, ?_⟩
      · rw [hrun]
        exact (List.append_nil _).symm
      · cases call with
        | deleteApiKey id auditedAt =>
          rw [deleted, hrun]
          exact nofun
        | _ => exact nofun
    | some row =>
      have hrun := run_serve_of_some hrow usedAt call
      obtain ⟨kept, hkept, hkeys⟩ := call.keyHashes_handle ⟨row.id, row.role⟩
        (db.touchApiKey row.id usedAt)
      rw [Db.keyHashes_touchApiKey] at hkept
      rw [hrun]
      refine ⟨kept, hkept, hkeys, ?_⟩
      cases call with
      | deleteApiKey id auditedAt =>
        intro hash hhash
        rw [deleted, hrun] at hhash
        split at hhash
        · next response hok =>
          rw [← Db.map_keyHash_touchApiKey db row.id usedAt _ fun _ _ => rfl] at hhash
          rw [← Db.keyHashes_touchApiKey row.id usedAt]
          exact count_kept_lt_of_deleteApiKey hok hkeys hhash
        · cases hhash
      | _ => exact nofun

omit [Curve] [Cipher] [JsonIds] [Rfc3339] in
/-- A request is told one key at most. -/
theorem ApiRequest.length_keysTold (request : ApiRequest)
    (result : Except (Fault ApiError) request.Response) :
    (request.keysTold result).length ≤ 1 := by
  cases request with
  | health elapsed elapsedAtEnd => exact Nat.zero_le 1
  | authorized authorization usedAt call =>
    cases result with
    | error e => exact Nat.zero_le 1
    | ok response => cases call <;> first | exact le_rfl | exact Nat.zero_le 1

/-! ## Runs -/

section Runs

variable {ι : Type}

/-- The raw keys that an event generates for a request for a network or a key. -/
def ServerEvent.generated (db : Db) : ServerEvent ι → List String
  | .start _ _ => []
  | .request _ req => req.keysTold (req.serve.run exec db).1

/-- The raw keys that an event can store as a start. -/
def ServerEvent.started (db : Db) : ServerEvent ι → List String
  | .start bootstrapKeys draws => startKeys db bootstrapKeys draws
  | .request _ _ => []

/-- The raw keys that an event can store. -/
def ServerEvent.issued (db : Db) (event : ServerEvent ι) : List String :=
  event.started db ++ event.generated db

/-- The hashes of the rows whose deletion an event answers with success. -/
def ServerEvent.deleted (db : Db) : ServerEvent ι → List String
  | .start _ _ => []
  | .request _ req => req.deleted db

/-- The database with the raw keys that were issued so far, those that were generated while
they were stored, and those whose row was deleted and that were not generated again. -/
structure KeyHistory where
  db : Db
  issued : List String
  doubled : List String
  revoked : List String

namespace KeyHistory

/-- Before the first start. -/
def new : KeyHistory where
  db := .empty
  issued := []
  doubled := []
  revoked := []

/-- The history after one more event. A request that generates a key anew ends its
revocation; so does one that has generated it while it was stored. -/
def apply (history : KeyHistory) (event : ServerEvent ι) : KeyHistory where
  db := event.apply history.db
  issued := history.issued ++ event.issued history.db
  doubled := history.doubled ++
    (event.generated history.db).filter fun key => sha256Hex key ∈ history.db.keyHashes
  revoked :=
    (history.revoked ++ history.issued.filter fun key =>
      sha256Hex key ∈ event.deleted history.db ∧ key ∉ history.doubled).filter fun key =>
        key ∉ event.generated history.db

/-- No request with a revoked key is authenticated. -/
def Permanent (history : KeyHistory) : Prop :=
  ∀ key ∈ history.revoked, ∀ authorization, bearerKey authorization = .ok key →
    ∀ usedAt user db', (AuthenticatedUser.fromRequestParts authorization usedAt).run exec
      history.db ≠ (.ok user, db')

/-- The key has a length with which it can be presented. -/
def Presentable (key : String) : Prop :=
  16 ≤ (ByteString.utf8Bytes key).length ∧ (ByteString.utf8Bytes key).length ≤ 256

instance (key : String) : Decidable (Presentable key) := inferInstanceAs (Decidable (_ ∧ _))

/-- No start stores a revoked key, and no key is issued that has the hash of another one. -/
structure KeepsRevoked (history : KeyHistory) (event : ServerEvent ι) : Prop where
  revoked : ∀ key ∈ event.started history.db, key ∈ history.revoked → ¬ Presentable key
  distinct : ∀ key ∈ event.issued history.db,
    ∀ other ∈ history.issued ++ event.issued history.db,
      sha256Hex other = sha256Hex key → other = key

instance (history : KeyHistory) (event : ServerEvent ι) :
    Decidable (history.KeepsRevoked event) :=
  decidable_of_iff (_ ∧ _) ⟨fun h => ⟨h.1, h.2⟩, fun h => ⟨h.revoked, h.distinct⟩⟩

/-- What holds of the history in all runs that keep keys revoked. -/
structure Sound (history : KeyHistory) : Prop where
  distinct : ∀ key ∈ history.issued, ∀ other ∈ history.issued,
    sha256Hex other = sha256Hex key → other = key
  doubled_issued : ∀ key ∈ history.doubled, key ∈ history.issued
  revoked_issued : ∀ key ∈ history.revoked, key ∈ history.issued
  once : ∀ hash, 2 ≤ history.db.keyHashes.count hash →
    ∃ key ∈ history.doubled, hash = sha256Hex key
  absent : ∀ key ∈ history.revoked, Presentable key → sha256Hex key ∉ history.db.keyHashes

variable {history : KeyHistory} {event : ServerEvent ι}

omit [Cipher] [JsonIds] [Rfc3339] in
/-- A history starts sound. -/
theorem sound_new : Sound new := by
  refine ⟨?_, ?_, ?_, ?_, ?_⟩ <;> simp [new, Db.keyHashes, Db.empty]

omit [Cipher] [JsonIds] [Rfc3339] in
/-- The hash of a revoked key is not found. -/
theorem Sound.permanent (h : history.Sound) : history.Permanent := by
  intro key hkey authorization hbearer usedAt user db' hrun
  obtain ⟨_, hlength⟩ := bearerKey_eq_ok.mp hbearer
  have habsent : sha256Hex key ∉ history.db.keyHashes :=
    h.absent key hkey ⟨by omega, by omega⟩
  have hnone : authenticatedRow authorization history.db = none := by
    rw [authenticatedRow, hbearer]
    exact Db.getApiKeyByHash_eq_none.mpr habsent
  obtain ⟨e, hrefused⟩ := run_fromRequestParts_of_none hnone usedAt
  rw [hrefused] at hrun
  cases hrun

/-- What is revoked after an event was so before, or the event has deleted it. -/
theorem mem_revoked_apply {key : String} (hkey : key ∈ (history.apply event).revoked) :
    key ∉ event.generated history.db ∧ (key ∈ history.revoked ∨ key ∈ history.issued ∧
      sha256Hex key ∈ event.deleted history.db ∧ key ∉ history.doubled) := by
  rw [apply, List.mem_filter, List.mem_append, List.mem_filter] at hkey
  simpa [and_comm] using hkey

/-- The keys that are known after an event have different hashes. -/
theorem Sound.distinct_apply (h : history.Sound) (hguard : history.KeepsRevoked event) :
    ∀ key ∈ (history.apply event).issued, ∀ other ∈ (history.apply event).issued,
      sha256Hex other = sha256Hex key → other = key := by
  intro key hkey other hother hhash
  rcases List.mem_append.mp hkey with hold | hnew
  · rcases List.mem_append.mp hother with hold' | hnew'
    · exact h.distinct key hold other hold' hhash
    · exact (hguard.distinct other hnew' key (List.mem_append_left _ hold) hhash.symm).symm
  · exact hguard.distinct key hnew other hother hhash

/-- Keys that were generated again have been issued. -/
theorem Sound.doubled_issued_apply (h : history.Sound) :
    ∀ key ∈ (history.apply event).doubled, key ∈ (history.apply event).issued := by
  intro key hkey
  rcases List.mem_append.mp hkey with hold | hnew
  · exact List.mem_append_left _ (h.doubled_issued key hold)
  · exact List.mem_append_right _ (List.mem_append_right _ (List.mem_filter.mp hnew).1)

/-- Revoked keys have been issued. -/
theorem Sound.revoked_issued_apply (h : history.Sound) :
    ∀ key ∈ (history.apply event).revoked, key ∈ (history.apply event).issued := by
  intro key hkey
  obtain ⟨_, hold | ⟨hissued, _⟩⟩ := mem_revoked_apply hkey
  · exact List.mem_append_left _ (h.revoked_issued key hold)
  · exact List.mem_append_left _ hissued

/-- A start stores hashes that are not stored, and none of a revoked key. -/
theorem Sound.start (h : history.Sound) {bootstrapKeys : List String} {draws : BootstrapDraws}
    (hguard : history.KeepsRevoked (.start bootstrapKeys draws : ServerEvent ι)) :
    (history.apply (.start bootstrapKeys draws : ServerEvent ι)).Sound := by
  obtain ⟨added, hadded, hnodup, hnew⟩ :=
    registers_ensureBootstrapKey bootstrapKeys draws history.db
  have hhashes : (history.apply (.start bootstrapKeys draws : ServerEvent ι)).db.keyHashes =
      history.db.keyHashes ++ added := hadded
  refine ⟨h.distinct_apply hguard, h.doubled_issued_apply, h.revoked_issued_apply, ?_, ?_⟩
  · intro hash htwo
    rw [hhashes, List.count_append] at htwo
    have hone : added.count hash ≤ 1 := List.nodup_iff_count_le_one.mp hnodup hash
    obtain ⟨key, hkey, hhash⟩ := h.once hash (by
      by_cases hmem : hash ∈ added
      · have hzero := List.count_eq_zero.mpr (hnew hash hmem).1
        omega
      · have hzero := List.count_eq_zero.mpr hmem
        omega)
    exact ⟨key, List.mem_append_left _ hkey, hhash⟩
  · intro key hkey hpresentable hstored
    obtain ⟨_, hrevoked⟩ := mem_revoked_apply hkey
    have hold : key ∈ history.revoked := hrevoked.resolve_right fun hdeleted =>
      List.not_mem_nil hdeleted.2.1
    rw [hhashes] at hstored
    rcases List.mem_append.mp hstored with hstored | hstored
    · exact h.absent key hold hpresentable hstored
    · obtain ⟨other, hother, hhash⟩ := (hnew _ hstored).2
      have hsame : key = other := hguard.distinct other (List.mem_append_left _ hother) key
        (List.mem_append_left _ (h.revoked_issued key hold)) hhash
      exact hguard.revoked key (hsame ▸ hother) hold hpresentable

/-- A request takes the hashes of deleted rows out, and stores those of generated keys. -/
theorem Sound.request (h : history.Sound) {who : ι} {request : ApiRequest}
    (hguard : history.KeepsRevoked (.request who request)) :
    (history.apply (.request who request : ServerEvent ι)).Sound := by
  obtain ⟨kept, hkept, hkeys, hdeleted⟩ := request.keyHashes_serve history.db
  have hhashes : (history.apply (.request who request : ServerEvent ι)).db.keyHashes = kept ++
      ((ServerEvent.request who request).generated history.db).map sha256Hex := hkeys
  refine ⟨h.distinct_apply hguard, h.doubled_issued_apply, h.revoked_issued_apply, ?_, ?_⟩
  · intro hash htwo
    rw [hhashes, List.count_append] at htwo
    have hone : (((ServerEvent.request who request).generated history.db).map sha256Hex).count
        hash ≤ 1 := le_trans List.count_le_length (by
      rw [List.length_map]
      exact request.length_keysTold _)
    have hless : kept.count hash ≤ history.db.keyHashes.count hash := hkept.count_le hash
    by_cases hmem : hash ∈ ((ServerEvent.request who request).generated history.db).map sha256Hex
    · obtain ⟨key, hkey, rfl⟩ := List.mem_map.mp hmem
      have hstored : sha256Hex key ∈ history.db.keyHashes :=
        List.count_pos_iff.mp (by omega)
      exact ⟨key, List.mem_append_right _ (List.mem_filter.mpr
        ⟨hkey, decide_eq_true hstored⟩), rfl⟩
    · have hzero := List.count_eq_zero.mpr hmem
      obtain ⟨key, hkey, hhash⟩ := h.once hash (by omega)
      exact ⟨key, List.mem_append_left _ hkey, hhash⟩
  · intro key hkey hpresentable hstored
    obtain ⟨hfresh, hrevoked⟩ := mem_revoked_apply hkey
    have hissued : key ∈ history.issued :=
      hrevoked.elim (h.revoked_issued key) fun hnow => hnow.1
    rw [hhashes] at hstored
    rcases List.mem_append.mp hstored with hstored | hstored
    · rcases hrevoked with hold | ⟨_, hnow, hsingle⟩
      · exact h.absent key hold hpresentable (hkept.subset hstored)
      · have hless := hdeleted _ hnow
        have hpos := List.count_pos_iff.mpr hstored
        obtain ⟨other, hother, hhash⟩ := h.once (sha256Hex key) (by omega)
        have hsame : other = key := h.distinct key hissued other (h.doubled_issued other hother)
          hhash.symm
        exact hsingle (hsame ▸ hother)
    · obtain ⟨other, hother, hhash⟩ := List.mem_map.mp hstored
      have hsame : key = other := hguard.distinct other (List.mem_append_right _ hother) key
        (List.mem_append_left _ hissued) hhash.symm
      exact hfresh (hsame ▸ hother)

/-- A guarded event keeps the history sound. -/
theorem Sound.apply (h : history.Sound) (hguard : history.KeepsRevoked event) :
    (history.apply event).Sound := by
  cases event with
  | start bootstrapKeys draws => exact h.start hguard
  | request who request => exact h.request hguard

/-- **Revocation.** In a run whose starts list no revoked key, no request with a revoked
key is authenticated. -/
theorem permanent_throughout {events : List (ServerEvent ι)}
    (h : Run.Guarded apply KeepsRevoked new events) :
    Run.Throughout apply Permanent new events := by
  have hsound : Run.Throughout apply Sound new events :=
    Run.throughout_of_guarded (fun history event hsound hguard => hsound.apply hguard) sound_new h
  exact fun done hdone => (hsound done hdone).permanent

/-! ### A restart -/

/-- The administrator deletes the row of a key. -/
def deletion (id : String) : ServerEvent String :=
  .request "admin" (.authorized (some "Bearer sigimora_AAAAAAAAAAAAAAAA") "" (.deleteApiKey id ""))

/-- The server is started, with the first key and the ids `c0`, `c1`, … for the configured ones. -/
def startWith (bootstrapKeys : List String) : ServerEvent String :=
  .start bootstrapKeys ⟨⟨List.replicate 16 0, "k0", ""⟩, fun i => (s!"c{i}", "")⟩

/-- A start with these configured keys, or a request. -/
def Configured (bootstrapKeys : List String) : ServerEvent ι → Prop
  | .start keys _ => keys = bootstrapKeys
  | .request _ _ => True

omit [Curve] [Cipher] [JsonIds] [Rfc3339] in
/-- A user's key is created, revoked, and stays revoked over a restart. -/
theorem permanent_throughout_restart :
    letI := exponentCurve
    letI := plainCipher
    letI := unreadTimes
    letI := unreadIds
    let events := userKeyCreated ++ [deletion "k1", startWith []]
    "sigimora_BBBBBBBBBBBBBBBB" ∈ (Run.after apply new events).revoked ∧
      Run.Throughout apply Permanent new events := by
  let := exponentCurve
  let := plainCipher
  let := unreadTimes
  let := unreadIds
  refine ⟨by decide +kernel, permanent_throughout ?_⟩
  refine Run.guarded_cons.mpr ⟨by decide +kernel, ?_⟩
  refine Run.guarded_cons.mpr ⟨by decide +kernel, ?_⟩
  refine Run.guarded_cons.mpr ⟨by decide +kernel, ?_⟩
  exact Run.guarded_cons.mpr ⟨by decide +kernel, Run.guarded_nil⟩

omit [Curve] [Cipher] [JsonIds] [Rfc3339] in
/-- A configured key is revoked, and registered again when the server restarts. -/
theorem configured_key_registered_again :
    letI := exponentCurve
    letI := plainCipher
    letI := unreadTimes
    letI := unreadIds
    ¬ ∀ (bootstrapKeys : List String) (events : List (ServerEvent String)),
      (∀ event ∈ events, Configured bootstrapKeys event) →
      Run.Throughout apply Permanent new events := by
  let := exponentCurve
  let := plainCipher
  let := unreadTimes
  let := unreadIds
  intro h
  let keys := ["sigimora_configured"]
  let events := [startWith keys, deletion "c0", startWith keys]
  have hpermanent : (Run.after apply new events).Permanent :=
    (h keys events (by simp [events, startWith, deletion, Configured])).last
  have hrevoked : "sigimora_configured" ∈ (Run.after apply new events).revoked := by
    decide +kernel
  have hbearer : bearerKey (some "Bearer sigimora_configured") = .ok "sigimora_configured" := by
    decide +kernel
  have hauthenticated : ((AuthenticatedUser.fromRequestParts (some "Bearer sigimora_configured")
      "").run exec (Run.after apply new events).db).1.isOk = true := by
    decide +kernel
  obtain ⟨user, hrun⟩ := exists_ok_of_isOk hauthenticated
  exact hpermanent _ hrevoked _ hbearer _ _ _ hrun

end KeyHistory

end Runs

end Requests

end Sigimora.Server
