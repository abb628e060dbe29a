import Sigimora.Server.StoredKeys

/-!
# Authentication

The extractor that runs before every handler behind a key. It looks the hash of
the key up among the stored keys and hands the id and the role of the row to the
handler; on the way it notes when the key was used.
-/

namespace Sigimora.Server

open Handler Program

namespace Handler

/-- Execute one statement; its error is answered as an internal one. -/
def queryInternal (s : Stmt) : Handler s.Value :=
  .call s fun reply =>
    match reply with
    | .ok value => .finish (.ok value)
    | .error e => fail (.internal s!"{ApiError.database e}")

/-- Execute one statement and go on in either case. -/
def attempt (s : Stmt) : Handler Unit := .call s fun _ => .finish (.ok ())

end Handler

/-- The rest of a text after the given beginning, if it begins so. -/
def stripPrefix (start text : String) : Option String :=
  if start.toList <+: text.toList then some (String.ofList (text.toList.drop start.toList.length))
  else none

/-- A text that begins with a start goes on with the rest. -/
theorem stripPrefix_append (start rest : String) :
    stripPrefix start (start ++ rest) = some rest := by
  rw [stripPrefix, if_pos (by rw [String.toList_append]; exact List.prefix_append _ _),
    String.toList_append, List.drop_left, String.ofList_toList]

/-- The key in the `Authorization` header. -/
def bearerKey (authorization : Option String) : Outcome ApiError String := do
  let header ← Outcome.okOr (.unauthorized "Missing Authorization header") authorization
  let key ← Outcome.okOr (.unauthorized "Authorization must be Bearer <key>")
    (stripPrefix "Bearer " header)
  let length := (ByteString.utf8Bytes key).length
  if length < 16 ∨ length > 256 then
    Outcome.fail (.unauthorized "Invalid API key format")
  else return key

/-- The key of a request is what follows `Bearer `, if it is of 16 to 256 bytes. -/
theorem bearerKey_eq_ok {authorization : Option String} {key : String} :
    bearerKey authorization = .ok key ↔ authorization.bind (stripPrefix "Bearer ") = some key ∧
      ¬ ((ByteString.utf8Bytes key).length < 16 ∨ (ByteString.utf8Bytes key).length > 256) := by
  rw [bearerKey, Outcome.bind_eq_ok]
  simp only [Outcome.bind_eq_ok, Outcome.okOr_eq_ok, Option.bind_eq_some_iff]
  constructor
  · rintro ⟨header, hheader, key', hkey, h⟩
    split at h
    · cases h
    · next hlength =>
      cases h
      exact ⟨⟨header, hheader, hkey⟩, hlength⟩
  · rintro ⟨⟨header, hheader, hkey⟩, hlength⟩
    exact ⟨header, hheader, key, hkey, if_neg hlength⟩

/-- Constant-time comparison of two hashes. -/
def ctEqHash (a b : String) : Bool := ByteString.utf8Bytes a = ByteString.utf8Bytes b

/-- The identity that a request is handled for. -/
structure AuthenticatedUser where
  id : String
  role : String

variable [Curve]

/-- Accept the row that the lookup of a hash has found. -/
def AuthenticatedUser.ofRow (hash usedAt : String) : Option ApiKeyRow → Handler AuthenticatedUser
  | some r =>
    if ctEqHash r.keyHash hash = false then fail (.unauthorized "Invalid API key")
    else do
      attempt (.touchApiKey r.id usedAt)
      return { id := r.id, role := r.role }
  | none => fail (.unauthorized "Invalid API key")

/-- Validate the `Authorization: Bearer <key>` header. -/
def AuthenticatedUser.fromRequestParts (authorization : Option String) (usedAt : String) :
    Handler AuthenticatedUser := do
  let key ← lift (bearerKey authorization)
  let row ← queryInternal (.getApiKeyByHash (sha256Hex key))
  AuthenticatedUser.ofRow (sha256Hex key) usedAt row

/-! ## The row of a key -/

section Rows

variable {db : Db} {authorization : Option String}

/-- The row that authenticates a request. -/
def authenticatedRow (authorization : Option String) (db : Db) : Option ApiKeyRow :=
  match bearerKey authorization with
  | .ok key => db.getApiKeyByHash (sha256Hex key)
  | .error _ => none

omit [Curve] in
/-- A key that is found by a hash is stored under that hash. -/
theorem Db.keyHash_of_getApiKeyByHash {hash : String} {row : ApiKeyRow}
    (h : db.getApiKeyByHash hash = some row) : row ∈ db.apiKeys ∧ row.keyHash = hash :=
  ⟨List.mem_of_find?_eq_some h, by simpa using List.find?_some h⟩

/-- The stored row of the presented key decides. -/
theorem run_fromRequestParts_of_bearerKey {key : String} (hkey : bearerKey authorization = .ok key)
    (usedAt : String) :
    (AuthenticatedUser.fromRequestParts authorization usedAt).run exec db =
      (AuthenticatedUser.ofRow (sha256Hex key) usedAt
        (db.getApiKeyByHash (sha256Hex key))).run exec db := by
  rw [AuthenticatedUser.fromRequestParts, hkey]
  rfl

/-- A request with a stored key is authenticated as its row says. -/
theorem run_fromRequestParts_of_some {row : ApiKeyRow}
    (h : authenticatedRow authorization db = some row) (usedAt : String) :
    (AuthenticatedUser.fromRequestParts authorization usedAt).run exec db =
      (.ok ⟨row.id, row.role⟩, db.touchApiKey row.id usedAt) := by
  unfold authenticatedRow at h
  split at h
  · rename_i key hkey
    have hequal : ctEqHash row.keyHash (sha256Hex key) = true := by
      rw [(Db.keyHash_of_getApiKeyByHash h).2]
      exact decide_eq_true rfl
    rw [run_fromRequestParts_of_bearerKey hkey, h, AuthenticatedUser.ofRow, hequal,
      if_neg (by decide)]
    rfl
  · cases h

/-- Any other request is refused, and leaves the database alone. -/
theorem run_fromRequestParts_of_none (h : authenticatedRow authorization db = none)
    (usedAt : String) :
    ∃ e, (AuthenticatedUser.fromRequestParts authorization usedAt).run exec db =
      (.error e, db) := by
  unfold authenticatedRow at h
  split at h
  · rename_i key hkey
    rw [run_fromRequestParts_of_bearerKey hkey, h]
    exact ⟨_, rfl⟩
  · rename_i e he
    rw [AuthenticatedUser.fromRequestParts, he]
    exact ⟨e, rfl⟩

end Rows

end Sigimora.Server
