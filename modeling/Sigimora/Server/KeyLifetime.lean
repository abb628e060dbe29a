import Sigimora.Server.Isolation

/-!
# The lifetime of a key

Whoever presents a stored key is taken for its owner, with the role in its row. Nothing
but the revocation of this very key ends that, neither requests that run side by side
nor a restart of the server, and only an administrator revokes keys.
-/

namespace Sigimora.Server

open Handler Program

/-! ## Rows that are found -/

/-- The row is the one that is found for its hash; it may have been used in between. -/
def Db.Finds (db : Db) (row : ApiKeyRow) : Prop :=
  ∃ lastUsedAt, db.getApiKeyByHash row.keyHash = some { row with lastUsedAt }

section Finds

variable {db : Db} {row : ApiKeyRow}

/-- What is found first and kept is found first among what is kept. -/
theorem find?_filter_of_find? {α : Type} {p q : α → Bool} {entries : List α} {entry : α}
    (h : entries.find? p = some entry) (hkept : q entry = true) :
    (entries.filter q).find? p = some entry := by
  obtain ⟨hp, before, after, rfl, hbefore⟩ := List.find?_eq_some_iff_append.mp h
  rw [List.filter_append, List.filter_cons_of_pos hkept]
  refine List.find?_eq_some_iff_append.mpr ⟨hp, _, _, rfl, fun other hother => ?_⟩
  exact hbefore other (List.mem_of_mem_filter hother)

/-- **Statements.** Only the deletion of the row ends its being found. -/
theorem Db.Finds.exec (h : db.Finds row) {s : Stmt} (hs : s ≠ .deleteApiKey row.id) :
    (Server.exec s db).2.Finds row := by
  obtain ⟨lastUsedAt, hfound⟩ := h
  by_cases hwrites : s.writesKeys = true
  · cases s with
    | insertApiKey key =>
      refine ⟨lastUsedAt, ?_⟩
      by_cases hid : key.id ∈ db.apiKeys.map ApiKeyRow.id
      · rw [Server.exec, Db.insertApiKey_of_mem hid]
        exact hfound
      · obtain ⟨db', hinsert, hkeys⟩ := Db.insertApiKey_exists key hid
        rw [getApiKeyByHash] at hfound
        rw [Server.exec, hinsert, getApiKeyByHash, hkeys, List.find?_append, hfound]
        rfl
    | touchApiKey id now =>
      have hpred : (fun other : ApiKeyRow => decide (other.keyHash = row.keyHash)) ∘
          (fun other => if other.id = id then { other with lastUsedAt := some now } else other) =
          fun other => decide (other.keyHash = row.keyHash) := by
        funext other
        rw [Function.comp_apply]
        split <;> rfl
      rw [getApiKeyByHash] at hfound
      simp only [Finds, Server.exec, touchApiKey, getApiKeyByHash, List.find?_map, hpred, hfound,
        Option.map_some]
      split
      · exact ⟨some now, rfl⟩
      · exact ⟨lastUsedAt, rfl⟩
    | deleteApiKey id =>
      refine ⟨lastUsedAt, find?_filter_of_find? hfound (decide_eq_true ?_)⟩
      rintro rfl
      exact hs rfl
    | _ => cases hwrites
  · refine ⟨lastUsedAt, ?_⟩
    rw [getApiKeyByHash, exec_apiKeys (by simpa using hwrites)]
    exact hfound

end Finds

/-! ## Who deletes rows -/

/-- The handler deletes no key. -/
abbrev RevokesNone {α : Type} (p : Handler α) : Prop :=
  Only (fun s : Stmt => ∀ id, s ≠ .deleteApiKey id) p

section Handlers

variable {α : Type}

/-- A handler that writes no keys revokes none. -/
theorem KeepsKeys.revokesNone {p : Handler α} (h : KeepsKeys p) : RevokesNone p := by
  refine h.mono fun s hs id hdelete => ?_
  rw [hdelete] at hs
  cases hs

/-- A new key revokes none. -/
theorem revokesNone_insertApiKey (row : ApiKeyRow) : RevokesNone (query (.insertApiKey row)) := by
  refine only_query fun id hdelete => ?_
  cases hdelete

/-- A query revokes none if it writes no keys. -/
theorem revokesNone_query {s : Stmt} (hs : s.writesKeys = false) : RevokesNone (query s) :=
  KeepsKeys.revokesNone (only_query hs)

variable [Curve]

/-- A start deletes no key. -/
theorem revokesNone_ensureBootstrapKey (bootstrapKeys : List String) (draws : BootstrapDraws) :
    RevokesNone (ensureBootstrapKey bootstrapKeys draws) := by
  refine (revokesNone_query rfl).bind fun keys => ?_
  have hregister (key : String) (entry : String × String) :
      RevokesNone (registerBootstrapKey key entry) := by
    refine (revokesNone_query rfl).bind fun known => Only.ite (only_pure _) ?_
    exact (only_lift _).bind fun _ => revokesNone_insertApiKey _
  have hloop : RevokesNone (bootstrapKeys.zipIdx.forM fun entry =>
      registerBootstrapKey entry.1 (draws.configured entry.2)) :=
    Only.forM fun entry _ => hregister entry.1 (draws.configured entry.2)
  split
  · exact (revokesNone_insertApiKey _).bind fun _ => hloop
  · exact hloop

end Handlers

section Requests

variable [Curve]

/-- The lookup of the presented key has shown the row. -/
def Shown (authorization : Option String) (h : List (Event Reply)) (row : ApiKeyRow) : Prop :=
  ∃ key, bearerKey authorization = .ok key ∧
    ⟨.getApiKeyByHash (sha256Hex key), .ok (some row)⟩ ∈ h

/-- The request is the revocation of the key with the id, and its own key was looked up and is
the one of an administrator. -/
def Revoker (request : ApiRequest) (id : String) (h : List (Event Reply)) : Prop :=
  ∃ authorization usedAt auditedAt admin,
    request = .authorized authorization usedAt (.deleteApiKey id auditedAt) ∧
      Shown authorization h admin ∧ admin.role = "admin"

/-- Keys are deleted by revocations of administrators. -/
def RevokesDuly (request : ApiRequest) (h : List (Event Reply)) (s : Stmt) : Prop :=
  ∀ id, s = .deleteApiKey id → Revoker request id h

variable {request : ApiRequest} {α : Type} {h : List (Event Reply)}

/-- A handler that revokes nothing revokes duly. -/
theorem RevokesNone.meets {p : Handler α} (hp : RevokesNone p) :
    Meets (RevokesDuly request) (fun _ _ => True) h p :=
  (Only.meets hp h).weaken fun _ _ hs id hdelete => absurd hdelete (hs id)

/-- The extractor takes the principal for the owner of the row that it has looked up. -/
theorem meets_fromRequestParts (authorization : Option String) (usedAt : String) :
    Meets (RevokesDuly request)
      (fun h user => ∃ row, Shown authorization h row ∧ user = ⟨row.id, row.role⟩) []
      (AuthenticatedUser.fromRequestParts authorization usedAt) := by
  refine meets_lift_bind fun key hkey => ?_
  refine Meets.bind (Q := fun h row? => ∀ row, row? = some row → Shown authorization h row) ?_
    fun h row? hrow => ?_
  · refine meets_call.mpr ⟨fun id hdelete => absurd hdelete (by simp), fun reply => ?_⟩
    cases reply with
    | error e => exact meets_fail _
    | ok value =>
      refine meets_ok.mpr fun row hvalue => ⟨key, hkey, ?_⟩
      rw [hvalue]
      exact List.mem_singleton_self _
  · cases row? with
    | none => exact meets_fail _
    | some row =>
      obtain ⟨presented, hpresented, hmem⟩ := hrow row rfl
      simp only [AuthenticatedUser.ofRow]
      split
      · exact meets_fail _
      · refine Meets.bind (Q := fun h _ => Shown authorization h row) ?_ fun h _ hshown =>
          meets_ok.mpr ⟨row, hshown, rfl⟩
        refine meets_call.mpr ⟨fun id hdelete => absurd hdelete (by simp), fun reply => ?_⟩
        exact meets_ok.mpr ⟨presented, hpresented, List.mem_append_left _ hmem⟩

variable [Cipher] [JsonIds] [Rfc3339]

/-- Apart from revocations, no request deletes a key. -/
theorem Call.revokesNone (user : AuthenticatedUser) {call : Call}
    (hcall : ∀ id auditedAt, call ≠ .deleteApiKey id auditedAt) :
    RevokesNone (call.handle user) := by
  by_cases hwrites : call.writesKeys = false
  · exact (Call.keepsKeys user hwrites).revokesNone
  cases call with
  | createNetwork req draws =>
    refine Only.mono (creates_createNetwork req draws) fun s hs id hdelete => ?_
    rw [hdelete] at hs
    exact hs
  | createApiKey req draws now =>
    refine Only.ite (only_fail _) (Only.ite (only_fail _) ?_)
    exact (revokesNone_insertApiKey _).bind fun _ => only_pure _
  | deleteApiKey id auditedAt => exact absurd rfl (hcall id auditedAt)
  | _ => exact (hwrites rfl).elim

/-- **Requests.** A key is deleted only by a revocation whose own key is an administrator's. -/
theorem ApiRequest.meets_revokesDuly (request : ApiRequest) :
    Meets (RevokesDuly request) (fun _ _ => True) [] request.serve := by
  cases request with
  | health elapsed elapsedAtEnd =>
    exact ((writesOnly_healthCheck elapsed elapsedAtEnd).keepsKeys
      List.not_mem_nil).revokesNone.meets
  | authorized authorization usedAt action =>
    refine (meets_fromRequestParts authorization usedAt).bind fun h user huser => ?_
    by_cases hdeletes : ∃ id auditedAt, action = .deleteApiKey id auditedAt
    · obtain ⟨id, auditedAt, rfl⟩ := hdeletes
      obtain ⟨admin, hshown, rfl⟩ := huser
      simp only [Call.handle, Server.deleteApiKey]
      split
      · exact meets_fail _
      · next hrole =>
        refine Meets.bind (Q := fun _ _ => True) (meets_query ?_ fun _ => trivial)
          fun h deleted _ => ?_
        · intro other hdelete
          cases hdelete
          exact ⟨authorization, usedAt, auditedAt, admin, rfl, hshown, not_not.mp hrole⟩
        · split
          · exact meets_fail _
          · exact (keepsKeys_attempt rfl).revokesNone.meets
    · exact (Call.revokesNone user fun id auditedAt heq =>
        hdeletes ⟨id, auditedAt, heq⟩).meets

/-! ## Lives of the server -/

/-- A life of the server: it is started, and then serves requests side by side until it stops. -/
structure Life where
  bootstrapKeys : List String
  draws : BootstrapDraws
  requests : ℕ → ApiRequest
  schedule : List ℕ

namespace Life

/-- The requests where the life ends. -/
def served (life : Life) (db : Db) :
    System Reply (Fault ApiError) (fun i => (life.requests i).Response) Db :=
  let started := ((ensureBootstrapKey life.bootstrapKeys life.draws).run exec db).2
  (arrivals life.requests started).runSchedule exec life.schedule

/-- The database that a life leaves behind. -/
def apply (db : Db) (life : Life) : Db := (life.served db).store

/-- An administrator revokes the key with the id. -/
def Revokes (life : Life) (db : Db) (id : String) : Prop :=
  ∃ i, Revoker (life.requests i) id (history i (life.served db).log)

variable {db : Db} {row : ApiKeyRow}

/-- A life in which a key is not revoked leaves it where it is. -/
theorem finds_apply (life : Life) (h : db.Finds row) (hkept : ¬ life.Revokes db row.id) :
    (life.apply db).Finds row := by
  have hstart : ((ensureBootstrapKey life.bootstrapKeys life.draws).run exec db).2.Finds row :=
    (revokesNone_ensureBootstrapKey life.bootstrapKeys life.draws).run
      (J := fun store => Db.Finds store row) (fun _ _ hs hfinds => hfinds.exec (hs row.id)) h
  have hinvariant : (arrivals life.requests
      ((ensureBootstrapKey life.bootstrapKeys life.draws).run exec db).2).Invariant
      (fun i => RevokesDuly (life.requests i)) (fun _ _ _ => True)
      (fun log store => (∃ i, Revoker (life.requests i) row.id (history i log)) ∨
        store.Finds row) :=
    ⟨Or.inr hstart, fun i => (life.requests i).meets_revokesDuly⟩
  refine (hinvariant.runSchedule ?_ life.schedule).1.resolve_left hkept
  intro log store i s hJ hs
  rcases hJ with ⟨j, authorization, usedAt, auditedAt, admin, hrequest, ⟨key, hkey, hmem⟩, hrole⟩ |
    hfinds
  · refine Or.inl ⟨j, authorization, usedAt, auditedAt, admin, hrequest, ⟨key, hkey, ?_⟩, hrole⟩
    rw [history, List.filterMap_append]
    exact List.mem_append_left _ hmem
  · by_cases hdelete : s = .deleteApiKey row.id
    · obtain ⟨authorization, usedAt, auditedAt, admin, hrequest, ⟨key, hkey, hmem⟩, hrole⟩ :=
        hs row.id hdelete
      refine Or.inl ⟨i, authorization, usedAt, auditedAt, admin, hrequest, ⟨key, hkey, ?_⟩, hrole⟩
      rw [history_append_self]
      exact List.mem_append_left _ hmem
    · exact Or.inr (hfinds.exec hdelete)

end Life

/-- **The lifetime of a key.** Through all lives of the server, until an administrator revokes
it, a stored key authenticates whoever presents it as the owner of its row. -/
theorem key_works_until_revoked {db : Db} {row : ApiKeyRow} (lives : List Life)
    (hkept : Run.Guarded Life.apply (fun db life => ¬ life.Revokes db row.id) db lives)
    {key : String} (hfound : db.getApiKeyByHash (sha256Hex key) = some row)
    {authorization : Option String} (hbearer : bearerKey authorization = .ok key)
    (usedAt : String) :
    ∃ db', (AuthenticatedUser.fromRequestParts authorization usedAt).run exec
      (Run.after Life.apply db lives) = (.ok ⟨row.id, row.role⟩, db') := by
  have hhash : row.keyHash = sha256Hex key := (Db.keyHash_of_getApiKeyByHash hfound).2
  have hfinds : (Run.after Life.apply db lives).Finds row := by
    refine (Run.throughout_of_guarded (P := fun db => Db.Finds db row)
      (fun db life h hkept => life.finds_apply h hkept) ?_ hkept).last
    exact ⟨row.lastUsedAt, (congrArg _ hhash).trans hfound⟩
  obtain ⟨lastUsedAt, hrow⟩ := hfinds
  have hshown : authenticatedRow authorization (Run.after Life.apply db lives) =
      some { row with lastUsedAt } := by
    rw [authenticatedRow, hbearer]
    exact (congrArg _ hhash.symm).trans hrow
  exact ⟨_, run_fromRequestParts_of_some hshown usedAt⟩

/-- The server is restarted, and the user asks for the networks again and again. -/
def listingLife : Life where
  bootstrapKeys := ["sigimora_AAAAAAAAAAAAAAAA"]
  draws := ⟨⟨[], "", ""⟩, fun _ => ("", "")⟩
  requests _ := .authorized (some "Bearer sigimora_BBBBBBBBBBBBBBBB") "" (.listNetworks fun _ => "")
  schedule := [0, 1, 1, 0]

omit [Curve] [Cipher] [JsonIds] [Rfc3339] in
/-- The user's key after two restarts. -/
theorem key_works_until_revoked_user :
    letI := exponentCurve
    letI := plainCipher
    letI := unreadTimes
    letI := unreadIds
    ∃ id db', (AuthenticatedUser.fromRequestParts (some "Bearer sigimora_BBBBBBBBBBBBBBBB") "").run
      exec (Run.after Life.apply userKeyDb [listingLife, listingLife]) =
        (.ok ⟨id, "user"⟩, db') := by
  let := exponentCurve
  let := plainCipher
  let := unreadTimes
  let := unreadIds
  have hrole : (userKeyDb.getApiKeyByHash (sha256Hex "sigimora_BBBBBBBBBBBBBBBB")).map
      ApiKeyRow.role = some "user" := by
    decide +kernel
  have hbearer : bearerKey (some "Bearer sigimora_BBBBBBBBBBBBBBBB") =
      .ok "sigimora_BBBBBBBBBBBBBBBB" := by
    decide +kernel
  obtain ⟨row, hrow, huser⟩ := Option.map_eq_some_iff.mp hrole
  have hkept : Run.Guarded Life.apply (fun db life => ¬ life.Revokes db row.id) userKeyDb
      [listingLife, listingLife] := by
    rintro done life hpart ⟨i, _, _, _, _, hrequest, _⟩
    have hlife : life ∈ [listingLife, listingLife] :=
      hpart.subset (List.mem_append_right _ (List.mem_singleton_self life))
    obtain rfl : life = listingLife := by simpa using hlife
    cases hrequest
  obtain ⟨db', hrun⟩ := key_works_until_revoked _ hkept hrow hbearer ""
  rw [huser] at hrun
  exact ⟨row.id, db', hrun⟩

end Requests

end Sigimora.Server
