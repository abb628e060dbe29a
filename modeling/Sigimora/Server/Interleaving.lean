import Sigimora.Server.Requests

/-!
# Requests that run side by side

Along every interleaving of the statements of any requests to one network, the
stored shares are those of the epochs that the order of the statements
determines, and so is everything that a request has read.
-/

namespace Sigimora.Server

open Handler Program

variable [Curve]

/-- The row says that the network has the given parameters and the key of `sk`. -/
structure StoredKey (net : NetworkRow) (n t : ℕ) (sk : Scalar) : Prop where
  n_eq : net.n = n
  t_eq : net.t = t
  state : net.state = "dkg_complete"
  collectivePk : net.collectivePk = some (sk • (G2Point.generator : G2Point)).toBytes

/-- The stored secrets interpolate, over all choices of `t + 1` nodes, to the
discrete logarithm of the stored collective key. -/
def KeysInterpolate (db : Db) (networkId : String) (n t : ℕ) : Prop :=
  ∃ net share sk, db.getNetwork networkId = some net ∧ StoredKey net n t sk ∧
    RowsHold (db.getNodesByNetwork networkId) n share ∧
    ∀ ids : List ParticipantId, ids.Nodup → (∀ id ∈ ids, id ∈ participants n) →
      ids.length = t + 1 →
      (Shamir.lagrangeCombination ids share : Outcome CryptoError Scalar) = .ok sk

variable {ι : Type} [DecidableEq ι] {n t : ℕ} {requests : ι → Request}
  {share₀ : ParticipantId → Scalar} {sk₀ : Scalar} {networkId : String}
  {log : List (ι × Event Reply)} {db db' : Db}

/-- The database and all that was read from it agree with the tracked epochs. -/
structure Tracked (n t : ℕ) (requests : ι → Request) (share₀ : ParticipantId → Scalar)
    (sk₀ : Scalar) (networkId : String) (log : List (ι × Event Reply)) (db : Db) : Prop where
  network : ∃ net, db.getNetwork networkId = some net ∧
    StoredKey net n t (originSecret n (fun i => (requests i).coins) sk₀
      (Provenance.after t requests log).key)
  rows : RowsHold (db.getNodesByNetwork networkId) n fun id =>
    ((Provenance.after t requests log).row id).share n t (fun i => (requests i).coins) share₀ id
  networkRead : ∀ i net, networkRead (history i log) = some net →
    StoredKey net n t (originSecret n (fun i => (requests i).coins) sk₀
      ((Provenance.after t requests log).keyRead i))
  nodesRead : ∀ i rows, nodesRead (history i log) = some rows →
    RowsHold rows n fun id => ((Provenance.after t requests log).rowsRead i id).share n t
      (fun i => (requests i).coins) share₀ id

omit [Curve] in
/-- The first network that was read counts. -/
theorem networkRead_append (h h' : List (Event Reply)) :
    networkRead (h ++ h') = (networkRead h).or (networkRead h') := List.findSome?_append

omit [Curve] in
/-- The first rows that were read count. -/
theorem nodesRead_append (h h' : List (Event Reply)) :
    nodesRead (h ++ h') = (nodesRead h).or (nodesRead h') := List.findSome?_append

omit [Curve] in
/-- A statement that does not read the network leaves what every request has read of it. -/
theorem networkRead_history_append {event : Event Reply} (hnone : networkRead [event] = none)
    (i j : ι) : networkRead (history j (log ++ [(i, event)])) = networkRead (history j log) := by
  by_cases hij : i = j
  · subst hij
    rw [history_append_self, networkRead_append, hnone, Option.or_none]
  · rw [history_append_of_ne hij]

omit [Curve] in
/-- An event that reads no rows does not count. -/
theorem nodesRead_history_append {event : Event Reply} (hnone : nodesRead [event] = none)
    (i j : ι) : nodesRead (history j (log ++ [(i, event)])) = nodesRead (history j log) := by
  by_cases hij : i = j
  · subst hij
    rw [history_append_self, nodesRead_append, hnone, Option.or_none]
  · rw [history_append_of_ne hij]

/-- Reading the row of the network. -/
theorem Tracked.getNetwork (h : Tracked n t requests share₀ sk₀ networkId log db) {i : ι}
    (hfirst : Server.networkRead (history i log) = none) :
    Tracked n t requests share₀ sk₀ networkId
      (log ++ [(i, ⟨.getNetwork networkId, .ok (db.getNetwork networkId)⟩)]) db := by
  refine ⟨?_, ?_, ?_, ?_⟩
  · simpa only [Provenance.after_append, Provenance.step] using h.network
  · simpa only [Provenance.after_append, Provenance.step] using h.rows
  · intro j net hread
    simp only [Provenance.after_append, Provenance.step]
    by_cases hij : i = j
    · subst hij
      rw [history_append_self, networkRead_append, hfirst, Option.none_or] at hread
      obtain ⟨stored, hstored, hkey⟩ := h.network
      rw [Function.update_self]
      rw [hstored] at hread
      cases hread
      exact hkey
    · rw [history_append_of_ne hij] at hread
      rw [Function.update_of_ne (Ne.symm hij)]
      exact h.networkRead j net hread
  · intro j rows hread
    rw [nodesRead_history_append rfl] at hread
    simpa only [Provenance.after_append, Provenance.step] using h.nodesRead j rows hread

/-- Reading the rows of the nodes. -/
theorem Tracked.getNodesByNetwork (h : Tracked n t requests share₀ sk₀ networkId log db) {i : ι}
    (hfirst : Server.nodesRead (history i log) = none) :
    Tracked n t requests share₀ sk₀ networkId
      (log ++ [(i, ⟨.getNodesByNetwork networkId, .ok (db.getNodesByNetwork networkId)⟩)]) db := by
  refine ⟨?_, ?_, ?_, ?_⟩
  · simpa only [Provenance.after_append, Provenance.step] using h.network
  · simpa only [Provenance.after_append, Provenance.step] using h.rows
  · intro j net hread
    rw [networkRead_history_append rfl] at hread
    simpa only [Provenance.after_append, Provenance.step] using h.networkRead j net hread
  · intro j rows hread
    simp only [Provenance.after_append, Provenance.step]
    by_cases hij : i = j
    · subst hij
      rw [history_append_self, nodesRead_append, hfirst, Option.none_or] at hread
      rw [Function.update_self]
      cases hread
      exact h.rows
    · rw [history_append_of_ne hij] at hread
      rw [Function.update_of_ne (Ne.symm hij)]
      exact h.nodesRead j rows hread

/-- A statement that reads nothing has to be checked only against the database. -/
theorem Tracked.write (h : Tracked n t requests share₀ sk₀ networkId log db)
    (row : ParticipantId → KeyEpoch ι) (key : Option ι) {i : ι} {event : Event Reply}
    (hnet : Server.networkRead [event] = none) (hnodes : Server.nodesRead [event] = none)
    (hstep : (Provenance.after t requests log).step t requests (i, event) =
      { Provenance.after t requests log with row, key })
    (hnetwork : ∃ net, db'.getNetwork networkId = some net ∧
      StoredKey net n t (originSecret n (fun i => (requests i).coins) sk₀ key))
    (hrows : RowsHold (db'.getNodesByNetwork networkId) n fun id =>
      (row id).share n t (fun i => (requests i).coins) share₀ id) :
    Tracked n t requests share₀ sk₀ networkId (log ++ [(i, event)]) db' := by
  refine ⟨?_, ?_, ?_, ?_⟩
  · rwa [Provenance.after_append, hstep]
  · rwa [Provenance.after_append, hstep]
  · intro j net hread
    rw [networkRead_history_append hnet] at hread
    rw [Provenance.after_append, hstep]
    exact h.networkRead j net hread
  · intro j rows hread
    rw [nodesRead_history_append hnodes] at hread
    rw [Provenance.after_append, hstep]
    exact h.nodesRead j rows hread

/-- A statement that touches no key has no effect on the tracked epochs. -/
theorem Tracked.frame (h : Tracked n t requests share₀ sk₀ networkId log db) {i : ι}
    {event : Event Reply} (hnet : Server.networkRead [event] = none)
    (hnodes : Server.nodesRead [event] = none)
    (hstep : (Provenance.after t requests log).step t requests (i, event) =
      Provenance.after t requests log)
    (hnetworks : db'.networks = db.networks) (hrows : db'.nodes = db.nodes) :
    Tracked n t requests share₀ sk₀ networkId (log ++ [(i, event)]) db' := by
  refine h.write _ _ hnet hnodes hstep ?_ ?_
  · rw [Db.getNetwork, hnetworks]
    exact h.network
  · rw [Db.getNodesByNetwork, hrows]
    exact h.rows

/-- The share that a request writes to a row is that of the tracked epoch. -/
theorem Tracked.written (h : Tracked n t requests share₀ sk₀ networkId log db) {i : ι}
    {net : NetworkRow} {rows : List NodeRow} {j : ParticipantId} {id : String} {bytes : List UInt8}
    (hnet : Server.networkRead (history i log) = some net)
    (hnodes : Server.nodesRead (history i log) = some rows) (hlength : rows.length = net.n)
    (hwrites : (requests i).writes networkId net rows (.updateNodeSecret id j bytes)) :
    id = networkId ∧ bytes = (((Provenance.after t requests log).written t requests i j).share n t
      (fun i => (requests i).coins) share₀ j).toBytes := by
  have hkey := h.networkRead i net hnet
  have hrows := h.nodesRead i rows hnodes
  have hbound := hrows.le_of_length (hlength.trans hkey.n_eq)
  unfold Provenance.written
  cases hrequest : requests i with
  | key request =>
    rw [hrequest] at hwrites
    cases request with
    | dkg coins =>
      obtain ⟨rfl, outputs, houtputs, entry, hentry, hj, hbytes⟩ := hwrites
      rw [hkey.n_eq, hkey.t_eq] at houtputs
      have hne : outputs ≠ [] := by
        rintro rfl
        simp at hentry
      obtain ⟨outputs', houtputs', _, hshares, _⟩ :=
        dkgOutputs_eq_ok hbound (le_of_dkgOutputs houtputs hne) coins
      cases houtputs.symm.trans houtputs'
      refine ⟨rfl, ?_⟩
      rw [hbytes, hshares entry hentry, hj]
      simp only [KeyEpoch.share, hrequest, Request.coins]
    | refresh coins =>
      obtain ⟨rfl, keys, hkeys, entry, hentry, hj, key, hindex, hbytes⟩ := hwrites
      rw [hkey.n_eq, hkey.t_eq, refreshedKeys_eq_ok hbound coins hrows] at hkeys
      cases hkeys
      have hvalue := hrows.index (ε := ApiError) (fun id =>
        ((Provenance.after t requests log).rowsRead i id).share n t
          (fun i => (requests i).coins) share₀ id + refreshDelta n t coins id) hentry
      have hvalue := Except.ok.inj (hindex.symm.trans hvalue)
      refine ⟨rfl, ?_⟩
      rw [hbytes, hvalue, hj]
      congr 1
      by_cases ht : t ≤ 1
      · simp only [if_pos ht, refreshDelta_eq_zero ht, add_zero]
      · simp only [if_neg ht, KeyEpoch.share, hrequest, Request.coins]
  | sign req draws =>
    rw [hrequest] at hwrites
    cases hwrites
  | batch req draws =>
    rw [hrequest] at hwrites
    cases hwrites

/-- The key that a request writes is that of its key generation. -/
theorem Tracked.writtenKey (h : Tracked n t requests share₀ sk₀ networkId log db) {i : ι}
    {net : NetworkRow} {rows : List NodeRow} {id state : String} {pk : Option (List UInt8)}
    (hnet : Server.networkRead (history i log) = some net)
    (hnodes : Server.nodesRead (history i log) = some rows) (hlength : rows.length = net.n)
    (hwrites : (requests i).writes networkId net rows (.updateNetworkState id state pk)) :
    id = networkId ∧ state = "dkg_complete" ∧
      pk = some (originSecret n (fun i => (requests i).coins) sk₀ (some i) •
        (G2Point.generator : G2Point)).toBytes := by
  have hkey := h.networkRead i net hnet
  have hbound := (h.nodesRead i rows hnodes).le_of_length (hlength.trans hkey.n_eq)
  cases hrequest : requests i with
  | key request =>
    rw [hrequest] at hwrites
    cases request with
    | dkg coins =>
      obtain ⟨rfl, rfl, outputs, houtputs, output, houtput, hpk⟩ := hwrites
      rw [hkey.n_eq, hkey.t_eq] at houtputs
      obtain ⟨outputs', houtputs', _, _, hkeys⟩ :=
        dkgOutputs_eq_ok hbound (le_of_dkgOutputs houtputs (List.ne_nil_of_mem houtput)) coins
      cases houtputs.symm.trans houtputs'
      refine ⟨rfl, rfl, ?_⟩
      rw [hpk, hkeys output houtput]
      simp only [originSecret, hrequest, Request.coins]
    | refresh coins =>
      rw [Request.writes] at hwrites
      cases hwrites
  | sign req draws =>
    rw [hrequest] at hwrites
    cases hwrites
  | batch req draws =>
    rw [hrequest] at hwrites
    cases hwrites

/-- Every statement that a request issues keeps the database tracked. -/
theorem Tracked.exec (h : Tracked n t requests share₀ sk₀ networkId log db) {i : ι} {s : Stmt}
    (hissues : Issues networkId ((requests i).writes networkId) (history i log) s) :
    Tracked n t requests share₀ sk₀ networkId (log ++ [(i, ⟨s, (Server.exec s db).1⟩)])
      (Server.exec s db).2 := by
  cases s with
  | getNetwork id =>
    obtain ⟨rfl, hfirst⟩ := hissues
    exact h.getNetwork hfirst
  | getNodesByNetwork id =>
    obtain ⟨rfl, hfirst⟩ := hissues
    exact h.getNodesByNetwork hfirst
  | updateNodeSecret id j bytes =>
    obtain ⟨net, rows, hnet, hnodes, hlength, hwrites⟩ := hissues
    obtain ⟨rfl, hbytes⟩ := h.written hnet hnodes hlength hwrites
    refine h.write (Function.update (Provenance.after t requests log).row j
      ((Provenance.after t requests log).written t requests i j))
      (Provenance.after t requests log).key rfl rfl rfl h.network ?_
    simp only [Server.exec, hbytes, Db.getNodesByNetwork_updateNodeSecret]
    refine (h.rows.update j _).congr fun other _ => ?_
    by_cases hj : other = j
    · subst hj
      rw [Function.update_self, Function.update_self]
    · rw [Function.update_of_ne hj, Function.update_of_ne hj]
  | updateNetworkState id state pk =>
    obtain ⟨net, rows, hnet, hnodes, hlength, hwrites⟩ := hissues
    obtain ⟨rfl, rfl, hpk⟩ := h.writtenKey hnet hnodes hlength hwrites
    obtain ⟨stored, hstored, hkey⟩ := h.network
    exact h.write (Provenance.after t requests log).row (some i) rfl rfl rfl
      ⟨_, Db.getNetwork_updateNetworkState hstored _ _, hkey.n_eq, hkey.t_eq, rfl, hpk⟩ h.rows
  | updateNodeEpoch id epoch =>
    refine h.write (Provenance.after t requests log).row (Provenance.after t requests log).key
      rfl rfl rfl h.network ?_
    simp only [Server.exec, Db.getNodesByNetwork_updateNodeEpoch]
    exact h.rows.updateEpoch id epoch
  | insertLedgerEntry entry =>
    obtain ⟨hnetworks, hnodes⟩ := Db.insertLedgerEntry_frame db entry
    exact h.frame rfl rfl rfl hnetworks hnodes
  | insertSignedTx tx =>
    obtain ⟨hnetworks, hnodes⟩ := Db.insertSignedTx_frame db tx
    exact h.frame rfl rfl rfl hnetworks hnodes
  | _ =>
    obtain ⟨_, _, _, _, _, hwrites⟩ := hissues
    cases Request.isNetworkWrite_of_writes hwrites

/-- Before the first statement everything belongs to the initial epoch. -/
theorem Tracked.start {net : NetworkRow} (hnet : db.getNetwork networkId = some net)
    (hkey : StoredKey net n t sk₀) (hrows : RowsHold (db.getNodesByNetwork networkId) n share₀) :
    Tracked n t requests share₀ sk₀ networkId [] db := by
  refine ⟨⟨net, hnet, hkey⟩, hrows, ?_, ?_⟩
  · intro i net hread
    cases hread
  · intro i rows hread
    cases hread

/-- **Tracking.** After every schedule the database is tracked, and the requests
keep to the statements and responses that their handlers allow. -/
theorem Tracked.sideBySide [Cipher] (h : Tracked n t requests share₀ sk₀ networkId [] db)
    (schedule : List ι) :
    (Server.sideBySide networkId requests db schedule).Invariant
      (fun i => Issues networkId ((requests i).writes networkId))
      (fun i => (requests i).Made networkId) (Tracked n t requests share₀ sk₀ networkId) := by
  refine System.Invariant.runSchedule ?_ ⟨h, fun i => meets_handle (requests i)⟩ schedule
  intro log store i s hstore hissues
  exact hstore.exec hissues

end Sigimora.Server
