import Sigimora.Server.KeyMaterial

/-!
# Stored keys

The rows of a network are complete, and once its keys were generated they are
the values of one polynomial that belongs to the stored collective key. Every
statement that a handler issues updates this description of the database.
-/

namespace Sigimora.Server

open Handler Program

/-! ## Running the parts of a handler -/

section Parts

variable {α : Type} {db db' : Db}

/-- A value that was computed is returned. -/
theorem run_lift_eq_ok {result : Outcome ApiError α} {a : α} (h : result = .ok a) :
    (lift result).run exec db = (.ok a, db) := congrArg (·, db) h

/-- A computation leaves the database alone. -/
theorem run_lift_bind_eq_ok {β : Type} {result : Outcome ApiError α} {f : α → Handler β} {b : β} :
    (lift result >>= f).run exec db = (.ok b, db') ↔
      ∃ a, result = .ok a ∧ (f a).run exec db = (.ok b, db') := by
  cases result with
  | error e =>
    constructor
    · intro h
      cases h
    · rintro ⟨a, ha, _⟩
      cases ha
  | ok a =>
    constructor
    · intro h
      exact ⟨a, rfl, h⟩
    · rintro ⟨a', ha, h⟩
      cases ha
      exact h

/-- A statement that succeeds returns its value and the new database. -/
theorem run_query_eq_ok {s : Stmt} {value : s.Value} :
    (query s).run exec db = (.ok value, db') ↔ exec s db = (.ok value, db') := by
  rw [query, run_call]
  rcases exec s db with ⟨reply, next⟩
  cases reply with
  | error e => constructor <;> intro h <;> cases h
  | ok v => simp

/-- A statement that fails is a database error. -/
theorem run_query_of_error {s : Stmt} {e : DbError} (h : exec s db = (.error e, db')) :
    (query s).run exec db = (.error (.err (.database e)), db') := by
  rw [query, run_call, h]
  rfl

/-- A network is fetched just if it is stored. -/
theorem run_fetchNetwork_eq_ok {networkId : String} {net : NetworkRow} :
    (fetchNetwork networkId).run exec db = (.ok net, db') ↔
      db.getNetwork networkId = some net ∧ db = db' := by
  have hrun : (fetchNetwork networkId).run exec db =
      (Outcome.okOr (.notFound s!"network {networkId} not found") (db.getNetwork networkId), db) :=
    rfl
  rw [hrun, Prod.mk.injEq, Outcome.okOr_eq_ok]

/-- The rows are loaded just if they are as many as wanted. -/
theorem run_loadNodes_eq_ok {networkId : String} {n : ℕ} {rows : List NodeRow} :
    (loadNodes networkId n).run exec db = (.ok rows, db') ↔
      db.getNodesByNetwork networkId = rows ∧ rows.length = n ∧ db = db' := by
  have hrun : (loadNodes networkId n).run exec db =
      (if (db.getNodesByNetwork networkId).length ≠ n then
        fail (.internal s!"expected {n} nodes, found {(db.getNodesByNetwork networkId).length}")
      else pure (db.getNodesByNetwork networkId) : Handler (List NodeRow)).run exec db := rfl
  rw [hrun]
  split
  · rename_i hlength
    constructor
    · intro h
      cases h
    · rintro ⟨rfl, h, _⟩
      exact absurd h hlength
  · rename_i hlength
    rw [pure_eq, run_finish, Prod.mk.injEq, Except.ok.injEq]
    constructor
    · rintro ⟨rfl, rfl⟩
      exact ⟨rfl, not_not.mp hlength, rfl⟩
    · rintro ⟨rfl, _, rfl⟩
      exact ⟨rfl, rfl⟩

end Parts

/-! ## The stored keys -/

variable [Curve]

/-- The rows of a network are complete and well formed. -/
structure Provisioned (db : Db) (networkId : String) (n t : ℕ) (share : ParticipantId → Scalar) :
    Prop where
  network : ∃ net, db.getNetwork networkId = some net ∧ net.n = n ∧ net.t = t ∧
    ∃ key : G2Point, net.trackingPk = some key.toBytes
  rows : RowsHold (db.getNodesByNetwork networkId) n share
  publicKeys : ∀ row ∈ db.getNodesByNetwork networkId, ∃ key : G2Point,
    row.publicKey = key.toBytes

/-- The network has generated its keys, and `sk` is the secret of its collective key. -/
def CollectiveKey (db : Db) (networkId : String) (sk : Scalar) : Prop :=
  ∃ net, db.getNetwork networkId = some net ∧ net.state = "dkg_complete" ∧
    net.collectivePk = some (sk • (G2Point.generator : G2Point)).toBytes

/-- The stored key shares are the values of one polynomial that any `t + 1` of
them determine, and the stored collective key is its value at zero. -/
def KeysConsistent (db : Db) (networkId : String) (n t : ℕ) : Prop :=
  ∃ p : Polynomial Scalar, p.degree < (t + 1 : ℕ) ∧
    Provisioned db networkId n t (fun id => p.eval (Scalar.ofId id)) ∧
    CollectiveKey db networkId (p.eval 0)

variable {db db' : Db} {networkId : String} {n t : ℕ} {share share' : ParticipantId → Scalar}

/-- Only the shares of the participants count. -/
theorem Provisioned.congr (h : Provisioned db networkId n t share)
    (hshare : ∀ id ∈ participants n, share id = share' id) :
    Provisioned db networkId n t share' :=
  ⟨h.network, h.rows.congr hshare, h.publicKeys⟩

/-- A request for the network goes on with its row. -/
theorem Provisioned.run_fetchNetwork {β : Type} (hdb : Provisioned db networkId n t share)
    {f : NetworkRow → Handler β} {b : β}
    (h : (fetchNetwork networkId >>= f).run exec db = (.ok b, db')) :
    ∃ net, net.n = n ∧ net.t = t ∧ (f net).run exec db = (.ok b, db') := by
  obtain ⟨net, _, hfetch, hrest⟩ := run_bind_eq_ok.mp h
  obtain ⟨hnet, rfl⟩ := run_fetchNetwork_eq_ok.mp hfetch
  obtain ⟨stored, hstored, hn, ht, _⟩ := hdb.network
  cases hnet.symm.trans hstored
  exact ⟨net, hn, ht, hrest⟩

/-- It then goes on with the rows of the nodes, if the number of them did not wrap. -/
theorem Provisioned.run_loadNodes {β : Type} (hdb : Provisioned db networkId n t share)
    {f : List NodeRow → Handler β} {b : β}
    (h : (loadNodes networkId n >>= f).run exec db = (.ok b, db')) :
    n ≤ 65535 ∧ (f (db.getNodesByNetwork networkId)).run exec db = (.ok b, db') := by
  obtain ⟨rows, _, hload, hrest⟩ := run_bind_eq_ok.mp h
  obtain ⟨rfl, hlength, rfl⟩ := run_loadNodes_eq_ok.mp hload
  exact ⟨hdb.rows.le_of_length hlength, hrest⟩

/-- Only the networks count. -/
theorem CollectiveKey.of_eq {sk : Scalar} (h : CollectiveKey db networkId sk)
    (hnetworks : db'.networks = db.networks) : CollectiveKey db' networkId sk := by
  rw [CollectiveKey, Db.getNetwork, hnetworks]
  exact h

omit [Curve] in
/-- A loop over rows of nodes leaves the rows of networks alone. -/
theorem networks_foldl {β : Type} {write : Db → β → Db}
    (hwrite : ∀ db entry, (write db entry).networks = db.networks) (entries : List β) (db : Db) :
    (entries.foldl write db).networks = db.networks := by
  induction entries generalizing db with
  | nil => rfl
  | cons entry entries ih => exact (ih _).trans (hwrite db entry)

/-- Nothing but the rows of the network matters. -/
theorem Provisioned.of_eq (h : Provisioned db networkId n t share)
    (hnetworks : db'.networks = db.networks) (hnodes : db'.nodes = db.nodes) :
    Provisioned db' networkId n t share := by
  refine ⟨?_, ?_, ?_⟩
  · rw [Db.getNetwork, hnetworks]
    exact h.network
  · rw [Db.getNodesByNetwork, hnodes]
    exact h.rows
  · rw [Db.getNodesByNetwork, hnodes]
    exact h.publicKeys

/-- A new secret replaces the share of its node. -/
theorem Provisioned.updateNodeSecret (h : Provisioned db networkId n t share) (j : ParticipantId)
    (s : Scalar) : Provisioned (db.updateNodeSecret networkId j s.toBytes) networkId n t
      (Function.update share j s) := by
  refine ⟨h.network, ?_, ?_⟩
  · rw [Db.getNodesByNetwork_updateNodeSecret]
    exact h.rows.update j s
  · rw [Db.getNodesByNetwork_updateNodeSecret]
    intro row hrow
    obtain ⟨old, hold, rfl⟩ := List.mem_map.mp hrow
    obtain ⟨key, hkey⟩ := h.publicKeys old hold
    exact ⟨key, by split <;> exact hkey⟩

/-- A new epoch keeps the shares. -/
theorem Provisioned.updateNodeEpoch (h : Provisioned db networkId n t share) (id epoch : ℕ) :
    Provisioned (db.updateNodeEpoch id epoch) networkId n t share := by
  refine ⟨h.network, ?_, ?_⟩
  · rw [Db.getNodesByNetwork_updateNodeEpoch]
    exact h.rows.updateEpoch id epoch
  · rw [Db.getNodesByNetwork_updateNodeEpoch]
    intro row hrow
    obtain ⟨old, hold, rfl⟩ := List.mem_map.mp hrow
    obtain ⟨key, hkey⟩ := h.publicKeys old hold
    exact ⟨key, by split <;> exact hkey⟩

/-- So does a new state of the network. -/
theorem Provisioned.updateNetworkState (h : Provisioned db networkId n t share) (state : String)
    (collectivePk : Option (List UInt8)) :
    Provisioned (db.updateNetworkState networkId state collectivePk) networkId n t share := by
  obtain ⟨net, hnet, hn, ht, htracking⟩ := h.network
  exact ⟨⟨_, Db.getNetwork_updateNetworkState hnet _ _, hn, ht, htracking⟩, h.rows, h.publicKeys⟩

/-- Writing the key shares of all participants, one row at a time. -/
theorem Provisioned.writeShares {β : Type} {entries : List β} {idOf : β → ParticipantId}
    (hids : entries.map idOf = participants n) (write : Db → β → Db)
    (value : ParticipantId → Scalar)
    (hwrite : ∀ db share, Provisioned db networkId n t share → ∀ entry ∈ entries,
      Provisioned (write db entry) networkId n t
        (Function.update share (idOf entry) (value (idOf entry))))
    (h : Provisioned db networkId n t share) :
    Provisioned (entries.foldl write db) networkId n t value := by
  have hloop : Provisioned (entries.foldl write db) networkId n t
      fun id => if id ∈ entries.map idOf then value id else share id := by
    clear hids
    induction entries generalizing db share with
    | nil => simpa using h
    | cons entry entries ih =>
      have hnext := ih (fun db share h e he => hwrite db share h e (List.mem_cons_of_mem _ he))
        (hwrite db share h entry List.mem_cons_self)
      refine hnext.congr fun id _ => ?_
      by_cases hid : id = idOf entry <;> by_cases hother : id ∈ entries.map idOf <;>
        simp [hid, hother, Function.update]
  refine hloop.congr fun id hid => if_pos ?_
  rwa [hids]

end Sigimora.Server
