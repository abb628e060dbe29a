import Sigimora.Server.Privilege
import Sigimora.Server.Robustness

/-!
# Strangers

A request without a key that is stored, or that comes to be stored in its time, is
refused. It leaves no trace: the database, and what all other requests are answered,
are as they would be without it, however the requests of strangers are interleaved
with the others. This is about the requests that the rate limiter has let through;
the limiter counts those of strangers like all others.
-/

namespace Sigimora.Server

open Handler Program

/-! ## Hashes that are known -/

section Known

variable {known : String → Prop} {db : Db}

/-- All stored keys have hashes that are known. -/
def Db.Knows (known : String → Prop) (db : Db) : Prop := ∀ row ∈ db.apiKeys, known row.keyHash

/-- The statement stores no key with another hash. -/
def Stmt.Registers (known : String → Prop) : Stmt → Prop
  | .insertApiKey row => known row.keyHash
  | _ => True

/-- The reply shows no key with another hash. -/
def Shows (known : String → Prop) : (s : Stmt) → Reply s → Prop
  | .getApiKeyByHash hash, reply => reply = .ok none ∨ known hash
  | _, _ => True

/-- The statement looks for a key. -/
def Stmt.LooksUp (s : Stmt) : Prop := ∃ hash, s = .getApiKeyByHash hash

/-- **Statements.** The hashes of stored keys stay known. -/
theorem Db.Knows.exec (h : db.Knows known) {s : Stmt} (hs : s.Registers known) :
    (Server.exec s db).2.Knows known := by
  by_cases hwrites : s.writesKeys = true
  · cases s with
    | insertApiKey row =>
      simp only [Server.exec, insertApiKey]
      split
      · exact h
      · exact forall_mem_append_singleton h hs
    | touchApiKey id now =>
      intro row hrow
      obtain ⟨old, hold, rfl⟩ := List.mem_map.mp hrow
      have hknown := h old hold
      split
      · exact hknown
      · exact hknown
    | deleteApiKey id => exact fun row hrow => h row (List.mem_of_mem_filter hrow)
    | _ => cases hwrites
  · rw [Knows, exec_apiKeys (by simpa using hwrites)]
    exact h

/-- A database of known keys shows no other. -/
theorem Db.Knows.shows (h : db.Knows known) (s : Stmt) : Shows known s (Server.exec s db).1 := by
  cases s with
  | getApiKeyByHash hash =>
    cases hfound : db.getApiKeyByHash hash with
    | none => exact Or.inl (congrArg Except.ok hfound)
    | some row =>
      obtain ⟨hrow, hhash⟩ := keyHash_of_getApiKeyByHash hfound
      exact Or.inr (hhash ▸ h row hrow)
  | _ => exact trivial

/-- Looking up a key changes nothing. -/
theorem Stmt.LooksUp.exec {s : Stmt} (hs : s.LooksUp) (db : Db) : (Server.exec s db).2 = db := by
  obtain ⟨hash, rfl⟩ := hs
  rfl

end Known

/-! ## Requests -/

section Requests

variable [Curve] {known : String → Prop}

/-- The raw keys that a request may store. -/
def ApiRequest.newKeys (request : ApiRequest) : List String :=
  (ServerEvent.request () request).newKeys

/-- The request needs a key, and presents none whose hash is known. -/
def ApiRequest.Stranger (known : String → Prop) (request : ApiRequest) : Prop :=
  ∃ authorization usedAt action, request = .authorized authorization usedAt action ∧
    ∀ key, bearerKey authorization = .ok key → ¬ known (sha256Hex key)

/-- The error says that the request was not authorized. -/
def Refused (fault : Fault ApiError) : Prop := ∃ message, fault = .err (.unauthorized message)

omit [Curve] in
/-- A request without a key is refused. -/
theorem refused_of_bearerKey {authorization : Option String} {fault : Fault ApiError}
    (h : bearerKey authorization = .error fault) : Refused fault := by
  simp only [bearerKey] at h
  cases authorization with
  | none =>
    cases h
    exact ⟨_, rfl⟩
  | some header =>
    rw [Outcome.okOr_some, Outcome.ok_bind] at h
    cases hkey : stripPrefix "Bearer " header with
    | none =>
      rw [hkey] at h
      cases h
      exact ⟨_, rfl⟩
    | some key =>
      rw [hkey, Outcome.okOr_some, Outcome.ok_bind] at h
      split at h
      · cases h
        exact ⟨_, rfl⟩
      · cases h

variable {authorization : Option String}

/-- A stranger is refused. -/
theorem endsWell_fromRequestParts
    (hunknown : ∀ key, bearerKey authorization = .ok key → ¬ known (sha256Hex key))
    (usedAt : String) :
    EndsWell (Shows known) Refused (fun _ => False)
      (AuthenticatedUser.fromRequestParts authorization usedAt) := by
  rw [AuthenticatedUser.fromRequestParts]
  cases hkey : bearerKey authorization with
  | error fault => exact endsWell_error.mpr (refused_of_bearerKey hkey)
  | ok key =>
    refine endsWell_call.mpr fun reply hshows => ?_
    rcases hshows with rfl | hknown
    · exact endsWell_error.mpr ⟨_, rfl⟩
    · exact absurd hknown (hunknown key hkey)

/-- A stranger looks for its key, and nothing follows on that. -/
theorem meets_fromRequestParts_heeds
    (hunknown : ∀ key, bearerKey authorization = .ok key → ¬ known (sha256Hex key))
    (usedAt : String) :
    Meets (Heeds (Shows known) Stmt.LooksUp) (fun h _ => Distrusted (Shows known) h) []
      (AuthenticatedUser.fromRequestParts authorization usedAt) := by
  refine meets_lift_bind fun key hkey => meets_call.mpr ⟨Or.inr ⟨_, rfl⟩, fun reply => ?_⟩
  by_cases hshows : Shows known (.getApiKeyByHash (sha256Hex key)) reply
  · rcases hshows with rfl | hknown
    · exact meets_fail _
    · exact absurd hknown (hunknown key hkey)
  · exact meets_heeds ⟨_, List.mem_singleton_self _, hshows⟩ _

variable [Cipher] [JsonIds] [Rfc3339] {request : ApiRequest}

/-- A stranger is refused. -/
theorem ApiRequest.Stranger.endsWell (h : request.Stranger known) :
    EndsWell (Shows known) Refused (fun _ => False) request.serve := by
  obtain ⟨authorization, usedAt, action, rfl, hunknown⟩ := h
  exact (endsWell_fromRequestParts hunknown usedAt).bind fun _ hnone => hnone.elim

/-- A stranger has a key looked up and nothing more. -/
theorem ApiRequest.Stranger.meets (h : request.Stranger known) :
    Meets (Heeds (Shows known) Stmt.LooksUp) (fun _ _ => True) [] request.serve := by
  obtain ⟨authorization, usedAt, action, rfl, hunknown⟩ := h
  exact (meets_fromRequestParts_heeds hunknown usedAt).bind fun h _ hdistrusted =>
    (meets_heeds hdistrusted _).mono fun _ _ _ => trivial

/-! ### What requests store -/

omit [Curve] [Cipher] [JsonIds] [Rfc3339] in
/-- A handler that writes no keys registers none. -/
theorem KeepsKeys.registers {α : Type} {p : Handler α} (hp : KeepsKeys p) :
    Only (Stmt.Registers known) p := by
  refine Only.mono hp fun s hs => ?_
  cases s with
  | insertApiKey row => cases hs
  | _ => exact trivial

/-- A call registers no keys but those it makes. -/
theorem Call.registers (user : AuthenticatedUser) {usedAt : String} {action : Call}
    (hnew : ∀ key ∈ (ApiRequest.authorized authorization usedAt action).newKeys,
      known (sha256Hex key)) :
    Only (Stmt.Registers known) (action.handle user) := by
  by_cases hwrites : action.writesKeys = false
  · exact (Call.keepsKeys user hwrites).registers
  cases action with
  | createNetwork req draws =>
    refine Only.ite (only_fail _) (Only.ite (only_fail _) ?_)
    exact (only_query trivial).bind fun _ => (Only.forM fun _ _ => only_query trivial).bind fun _ =>
      (only_query (hnew _ (List.mem_singleton_self _))).bind fun _ => only_pure _
  | createApiKey req draws now =>
    refine Only.ite (only_fail _) (Only.ite (only_fail _) ?_)
    exact (only_query (hnew _ (List.mem_singleton_self _))).bind fun _ => only_pure _
  | deleteApiKey id auditedAt =>
    refine Only.ite (only_fail _) ((only_query trivial).bind fun _ => Only.ite (only_fail _) ?_)
    exact (keepsKeys_attempt rfl).registers
  | _ => exact (hwrites rfl).elim

/-- **Requests.** What they store are the hashes of their new keys. -/
theorem ApiRequest.registers (hnew : ∀ key ∈ request.newKeys, known (sha256Hex key)) :
    Only (Stmt.Registers known) request.serve := by
  cases request with
  | health elapsed elapsedAtEnd =>
    exact ((writesOnly_healthCheck elapsed elapsedAtEnd).keepsKeys List.not_mem_nil).registers
  | authorized authorization usedAt action =>
    have hextractor : Only (Stmt.Registers known)
        (AuthenticatedUser.fromRequestParts authorization usedAt) := by
      have hlookup (hash : String) :
          Only (Stmt.Registers known) (queryInternal (.getApiKeyByHash hash)) :=
        only_queryInternal trivial
      refine (only_lift _).bind fun key => (hlookup _).bind fun row? => ?_
      cases row? with
      | none => exact only_fail _
      | some row => exact Only.ite (only_fail _) ((only_attempt trivial).bind fun _ => only_pure _)
    exact hextractor.bind fun user => Call.registers user hnew

end Requests

/-! ## Lives -/

section Lives

variable [Curve] [Cipher] [JsonIds] [Rfc3339]

namespace Life

/-- The hashes of the keys that are stored when a life begins, and of those that it may store. -/
def Known (life : Life) (db : Db) (hash : String) : Prop :=
  (∃ row ∈ db.apiKeys, row.keyHash = hash) ∨
  (∃ key ∈ (ServerEvent.start life.bootstrapKeys life.draws : ServerEvent Unit).newKeys,
    sha256Hex key = hash) ∨
  ∃ i, ∃ key ∈ (life.requests i).newKeys, sha256Hex key = hash

/-- The request is one of a stranger. -/
def Stranger (life : Life) (db : Db) (i : ℕ) : Prop :=
  (life.requests i).Stranger (life.Known db)

/-- The life without the requests of strangers. -/
def withoutStrangers (life : Life) (db : Db) [DecidablePred (life.Stranger db)] : Life :=
  { life with schedule := life.schedule.filter fun i => ¬ life.Stranger db i }

variable (life : Life) (db : Db)

/-- The database that the requests arrive at. -/
def started : Db := ((ensureBootstrapKey life.bootstrapKeys life.draws).run exec db).2

omit [Cipher] [JsonIds] [Rfc3339] in
/-- A life knows all keys that are stored after its start. -/
theorem knows_started : (life.started db).Knows (life.Known db) := by
  have hstart : Only (StoresOnly (_ :: life.bootstrapKeys))
      (ensureBootstrapKey life.bootstrapKeys life.draws) :=
    only_ensureBootstrapKey List.mem_cons_self fun _ hkey => List.mem_cons_of_mem _ hkey
  refine (hstart.mono fun s hs => ?_).run (J := Db.Knows (life.Known db))
    (fun _ _ hs hstore => hstore.exec hs) fun row hrow => Or.inl ⟨row, hrow, rfl⟩
  cases s with
  | insertApiKey row =>
    obtain ⟨key, hkey, hhash⟩ := hs
    exact Or.inr (Or.inl ⟨key, hkey, hhash.symm⟩)
  | _ => exact trivial

/-- A life registers no keys but those its requests make. -/
theorem registers (i : ℕ) : Only (Stmt.Registers (life.Known db)) (life.requests i).serve :=
  ApiRequest.registers fun key hkey => Or.inr (Or.inr ⟨i, key, hkey, rfl⟩)

end Life

/-- **Strangers.** Behind the rate limiter the requests of strangers have no effect on the database
and on the other requests, and all that they are ever answered is that they are not authorized. -/
theorem strangers_powerless (life : Life) (db : Db) [DecidablePred (life.Stranger db)] :
    life.apply db = (life.withoutStrangers db).apply db ∧
    (∀ i, ¬ life.Stranger db i →
      (life.served db).programs i = ((life.withoutStrangers db).served db).programs i) ∧
    ∀ i result, life.Stranger db i → (life.served db).programs i = .finish result →
      ∃ message, result = .error (.err (.unauthorized message)) := by
  have hends : (life.served db).EndsWell (Shows (life.Known db)) Refused (fun _ _ => False)
      (Stmt.Registers (life.Known db)) (Db.Knows (life.Known db)) (life.Stranger db) :=
    System.EndsWell.runSchedule (fun _ _ hs hstore => hstore.exec hs)
      (fun s _ hstore => hstore.shows s)
      ⟨life.knows_started db, life.registers db, fun i hi => hi.endsWell⟩ life.schedule
  have hinvariant : (arrivals life.requests (life.started db)).Invariant
      (fun i h s => s.Registers (life.Known db) ∧
        (life.Stranger db i → Heeds (Shows (life.Known db)) Stmt.LooksUp h s))
      (fun _ _ _ => True)
      (fun log store => store.Knows (life.Known db) ∧
        ∀ entry ∈ log, Shows (life.Known db) entry.2.stmt entry.2.reply) := by
    refine ⟨⟨life.knows_started db, fun _ hentry => absurd hentry List.not_mem_nil⟩, fun i => ?_⟩
    have honly := (life.registers db i).meets []
    by_cases hi : life.Stranger db i
    · refine ((honly.both hi.meets).weaken fun h s hs => ⟨hs.1, fun _ => hs.2⟩).mono
        fun _ _ _ => trivial
    · exact honly.weaken fun h s hs => ⟨hs, fun hstranger => absurd hstranger hi⟩
  have halike : System.Alike id (fun i => ¬ life.Stranger db i) (life.served db)
      ((life.withoutStrangers db).served db) := by
    refine hinvariant.isolated ?_ ?_ ?_ (.refl _) life.schedule
    · rintro log store i s ⟨hstore, hlog⟩ ⟨hregisters, _⟩
      exact ⟨hstore.exec hregisters, forall_mem_append_singleton hlog (hstore.shows s)⟩
    · rintro i h s _ _ store store' rfl
      exact ⟨rfl, rfl⟩
    · rintro log store i s ⟨_, hlog⟩ hi ⟨_, hheeds⟩
      rcases hheeds (not_not.mp hi) with ⟨event, hmem, hdistrusted⟩ | hlooks
      · exact absurd (hlog _ (mem_history.mp hmem)) hdistrusted
      · exact hlooks.exec store
  refine ⟨halike.view_eq, halike.programs_eq, fun i result hi hresult => ?_⟩
  have hend := hends.programs i hi
  rw [hresult] at hend
  cases result with
  | error fault =>
    obtain ⟨message, rfl⟩ := endsWell_error.mp hend
    exact ⟨message, rfl⟩
  | ok value => exact (endsWell_ok.mp hend).elim

end Lives

end Sigimora.Server
