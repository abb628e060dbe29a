import Sigimora.Server.StoredKeys

/-!
# Requests that replace keys

A new network has a row for each participant. A key generation stores the shares
of one polynomial together with its collective key, a refresh adds a polynomial
that vanishes at zero and leaves the collective key alone, and so every sequence
of them keeps the stored keys consistent.
-/

namespace Sigimora.Server

open Handler Program

variable [Curve] {db db' : Db} {networkId : String} {n t : ℕ}
  {share share' : ParticipantId → Scalar}

/-! ## Creating a network -/

/-- Inserting the nodes of a network appends their rows. -/
theorem run_insertNodes {draws : CreationDraws} {ids : List ParticipantId}
    (h : (ids.forM fun id => query (.insertNode (newNode draws id))).run exec db = (.ok (), db')) :
    db'.networks = db.networks ∧ ∃ rows, db'.nodes = db.nodes ++ rows ∧
      List.Forall₂ (fun row id => row.nodeId = id.toNat ∧ row.networkId = draws.networkId ∧
        row.secretKey = (draws.nodeSecret id).toBytes ∧
        row.publicKey = (draws.nodeSecret id • (G2Point.generator : G2Point)).toBytes)
        rows ids := by
  induction ids generalizing db with
  | nil =>
    cases h
    exact ⟨rfl, [], (List.append_nil _).symm, List.Forall₂.nil⟩
  | cons id ids ih =>
    obtain ⟨_, next, hinsert, hrest⟩ := run_bind_eq_ok.mp h
    obtain ⟨hnetworks, hnodes⟩ := Db.insertNode_eq_ok (run_query_eq_ok.mp hinsert)
    obtain ⟨hnetworks', rows, hrows, hall⟩ := ih hrest
    refine ⟨hnetworks'.trans hnetworks, { newNode draws id with id := db.nodes.length + 1 } :: rows,
      ?_, List.Forall₂.cons ⟨rfl, rfl, rfl, rfl⟩ hall⟩
    rw [hrows, hnodes, List.append_assoc, List.singleton_append]

/-- The rows of a network after its creation. -/
theorem createNetwork_provisioned {req : CreateNetworkRequest} {draws : CreationDraws}
    {response : CreateNetworkResponse}
    (h : (createNetwork req draws).run exec db = (.ok response, db')) :
    response.network.id = draws.networkId ∧ 1 ≤ req.t ∧ req.t < req.n ∧
      (∃ net, db'.getNetwork draws.networkId = some net ∧ net.state = "created") ∧
      Provisioned db' draws.networkId req.n req.t draws.nodeSecret := by
  unfold createNetwork at h
  split at h
  · cases h
  split at h
  · cases h
  rename_i hn ht
  obtain ⟨_, withNetwork, hnetwork, h⟩ := run_bind_eq_ok.mp h
  obtain ⟨_, withNodes, hnodes, h⟩ := run_bind_eq_ok.mp h
  obtain ⟨_, withKey, hkey, h⟩ := run_bind_eq_ok.mp h
  cases h
  obtain ⟨hget, hnone⟩ := Db.insertNetwork_eq_ok (run_query_eq_ok.mp hnetwork)
  obtain ⟨hnetworks, rows, hrows, hall⟩ := run_insertNodes hnodes
  obtain ⟨hnetworks', hnodes'⟩ := Db.insertApiKey_eq_ok (run_query_eq_ok.mp hkey)
  have hstored : db'.getNetwork draws.networkId = some (newNetwork req draws) := by
    rw [Db.getNetwork, hnetworks', hnetworks]
    exact hget
  have hloaded : db'.getNodesByNetwork draws.networkId = rows := by
    have hown : rows.filter (fun row => row.networkId = draws.networkId) = rows :=
      List.filter_eq_self.mpr fun row hrow => by
        obtain ⟨id, _, _, hown, _⟩ := Outcome.exists_of_forall₂ hall hrow
        exact decide_eq_true hown
    have hsorted : rows.Pairwise fun a b => a.nodeId ≤ b.nodeId := by
      have hids : rows.map NodeRow.nodeId = (participants req.n).map UInt16.toNat := by
        rw [← List.forall₂_eq_eq_eq, List.forall₂_map_left_iff, List.forall₂_map_right_iff]
        exact hall.imp fun _ _ h => h.1
      rw [← List.pairwise_map (f := NodeRow.nodeId) (R := (· ≤ ·)), hids, map_toNat_participants]
      exact List.pairwise_le_range'
    rw [Db.getNodesByNetwork, hnodes', hrows, List.filter_append, hown]
    exact (congrArg (List.insertionSort _ <| · ++ rows) hnone).trans hsorted.insertionSort_eq
  refine ⟨rfl, by omega, by omega, ⟨_, hstored, rfl⟩, ⟨_, hstored, rfl, rfl, _, rfl⟩, ?_, ?_⟩
  · rw [hloaded]
    exact hall.imp fun _ _ h => ⟨h.1, h.2.2.1⟩
  · rw [hloaded]
    intro row hrow
    obtain ⟨id, _, _, _, _, hpublic⟩ := Outcome.exists_of_forall₂ hall hrow
    exact ⟨_, hpublic⟩

/-! ## Key generation and refresh -/

/-- The effect of one pass of the loop that stores the outputs of a key generation. -/
def storeOutput (networkId : String) (db : Db) (entry : DkgOutput × ℕ) : Db :=
  db.updateNodeSecret networkId (UInt16.ofNat (entry.2 + 1)) entry.1.mySecret.toBytes

omit [Curve] in
/-- The effect of one pass of the loop that stores refreshed keys. -/
def storeRefreshed (networkId : String) (newShare : ParticipantId → Scalar) (epoch : ℕ) (db : Db)
    (entry : NodeRow × ℕ) : Db :=
  (db.updateNodeSecret networkId (UInt16.ofNat entry.1.nodeId)
    (newShare (UInt16.ofNat entry.1.nodeId)).toBytes).updateNodeEpoch entry.1.id epoch

omit [Curve] in
theorem networks_storeRefreshed (newShare : ParticipantId → Scalar) (epoch : ℕ) (db : Db)
    (entry : NodeRow × ℕ) :
    (storeRefreshed networkId newShare epoch db entry).networks = db.networks := by
  simp only [storeRefreshed, Db.updateNodeEpoch, Db.updateNodeSecret, Db.mapNodes]

/-- The shares and the key that a run of the key generation stores. -/
theorem runDkg_stores {coins : PartyDraws} {response : DkgStatusResponse} (ht : t ≤ n)
    (hdb : Provisioned db networkId n t share)
    (h : (runDkg networkId coins).run exec db = (.ok response, db')) :
    n ≤ 65535 ∧ Provisioned db' networkId n t (keyShare n t serverSetup coins) ∧
      CollectiveKey db' networkId (collectiveSecret n coins) := by
  obtain ⟨net, hn, ht', h⟩ := hdb.run_fetchNetwork h
  split at h
  · cases h
  rw [hn, ht'] at h
  obtain ⟨hbound, h⟩ := hdb.run_loadNodes h
  obtain ⟨outputs, houtputs, hsize, hshares, hkeys⟩ := dkgOutputs_eq_ok hbound ht coins
  rw [houtputs, run_lift_bind_eq_ok] at h
  obtain ⟨_, hlift, h⟩ := h
  cases hlift
  obtain ⟨first, hfirst, h⟩ := run_lift_bind_eq_ok.mp h
  have hpk : first.collectivePk = collectiveSecret n coins • G2Point.generator :=
    hkeys first (List.mem_of_getElem? (Outcome.index_eq_ok.mp hfirst))
  -- the loop writes the share of each node, and the last statement the key
  have hwrite := hdb.writeShares (map_zipIdx_participants hbound hsize) (storeOutput networkId)
    (keyShare n t serverSetup coins) fun db share hdb entry hentry => by
      rw [storeOutput, hshares entry hentry]
      exact hdb.updateNodeSecret _ _
  obtain ⟨_, _, hloop, h⟩ := run_bind_eq_ok.mp h
  rw [run_forM_eq_ok (storeOutput networkId) fun _ _ _ => rfl] at hloop
  cases hloop
  obtain ⟨_, _, hstate, h⟩ := run_bind_eq_ok.mp h
  cases hstate
  cases h
  obtain ⟨final, hfinal, _⟩ := hwrite.network
  refine ⟨hbound, hwrite.updateNetworkState _ _, _, Db.getNetwork_updateNetworkState hfinal _ _,
    rfl, ?_⟩
  rw [hpk]

/-- A refresh adds its deltas to the stored shares and keeps the stored key. -/
theorem refreshNetwork_stores {coins : PartyDraws} {response : RefreshResponse} {sk : Scalar}
    (hdb : Provisioned db networkId n t share) (hkey : CollectiveKey db networkId sk)
    (h : (refreshNetwork networkId coins).run exec db = (.ok response, db')) :
    Provisioned db' networkId n t (fun id => share id + refreshDelta n t coins id) ∧
      CollectiveKey db' networkId sk := by
  obtain ⟨net, hn, ht, h⟩ := hdb.run_fetchNetwork h
  split at h
  · cases h
  rw [hn, ht] at h
  obtain ⟨hbound, h⟩ := hdb.run_loadNodes h
  have hrows := hdb.rows
  rw [refreshedKeys_eq_ok hbound coins hrows, run_lift_bind_eq_ok] at h
  obtain ⟨_, hlift, h⟩ := h
  cases hlift
  obtain ⟨invariant, _, h⟩ := run_lift_bind_eq_ok.mp h
  -- each pass of the loop writes one share and one epoch
  let epoch := ((db.getNodesByNetwork networkId).head?.map NodeRow.epoch).getD 0 + 1
  let newShare := fun id => share id + refreshDelta n t coins id
  have hwrite := hdb.writeShares hrows.zipIdx_ids (storeRefreshed networkId newShare epoch) newShare
    fun db share hdb entry _ => (hdb.updateNodeSecret _ _).updateNodeEpoch _ _
  obtain ⟨_, _, hloop, h⟩ := run_bind_eq_ok.mp h
  rw [run_forM_eq_ok (storeRefreshed networkId newShare epoch) fun entry hentry db => by
    rw [hrows.index newShare hentry]
    rfl] at hloop
  cases hloop
  cases h
  exact ⟨hwrite, hkey.of_eq (networks_foldl (networks_storeRefreshed newShare epoch) _ _)⟩

/-- The key generation makes the stored keys consistent. -/
theorem KeysConsistent.of_runDkg {coins : PartyDraws} {response : DkgStatusResponse} (ht : t ≤ n)
    (hdb : Provisioned db networkId n t share)
    (h : (runDkg networkId coins).run exec db = (.ok response, db')) :
    KeysConsistent db' networkId n t := by
  obtain ⟨_, hrows, hkey⟩ := runDkg_stores ht hdb h
  refine ⟨jointPolynomial n t serverSetup coins, ?_, hrows.congr fun id _ => ?_, ?_⟩
  · apply lt_of_lt_of_le (degree_jointPolynomial_lt n t serverSetup coins)
    exact_mod_cast (by omega : max t 1 ≤ t + 1)
  · exact (eval_jointPolynomial n t serverSetup coins id).symm
  · rwa [eval_zero_jointPolynomial]

/-- A refresh keeps them consistent. -/
theorem KeysConsistent.refreshNetwork {coins : PartyDraws} {response : RefreshResponse}
    (hdb : KeysConsistent db networkId n t)
    (h : (Server.refreshNetwork networkId coins).run exec db = (.ok response, db')) :
    KeysConsistent db' networkId n t := by
  obtain ⟨p, hdegree, hrows, hkey⟩ := hdb
  obtain ⟨hrows', hkey'⟩ := refreshNetwork_stores hrows hkey h
  refine ⟨p + Refresh.jointZeroPolynomial n t serverSetup coins, ?_,
    hrows'.congr fun id _ => ?_, ?_⟩
  · refine lt_of_le_of_lt (Polynomial.degree_add_le _ _) (max_lt hdegree ?_)
    apply lt_of_lt_of_le (Refresh.degree_jointZeroPolynomial_lt n t serverSetup coins)
    exact_mod_cast (by omega : max t 1 ≤ t + 1)
  · rw [Polynomial.eval_add, Refresh.eval_jointZeroPolynomial, refreshDelta]
  · rwa [Polynomial.eval_add, Refresh.eval_zero_jointZeroPolynomial, add_zero]

/-- A request that replaces the keys of a network. -/
inductive KeyRequest
  | dkg (coins : PartyDraws)
  | refresh (coins : PartyDraws)

/-- Handle the request and drop the response. -/
def KeyRequest.handle (networkId : String) : KeyRequest → Handler Unit
  | .dkg coins => do
    let _ ← runDkg networkId coins
    return ()
  | .refresh coins => do
    let _ ← refreshNetwork networkId coins
    return ()

/-- Further requests keep the keys consistent. -/
theorem KeysConsistent.forM {requests : List KeyRequest} (ht : t ≤ n)
    (hdb : KeysConsistent db networkId n t)
    (h : (requests.forM (KeyRequest.handle networkId)).run exec db = (.ok (), db')) :
    KeysConsistent db' networkId n t := by
  induction requests generalizing db with
  | nil =>
    cases h
    exact hdb
  | cons request requests ih =>
    obtain ⟨_, next, hrequest, hrest⟩ := run_bind_eq_ok.mp h
    refine ih ?_ hrest
    cases request with
    | dkg coins =>
      obtain ⟨response, _, hdkg, hreturn⟩ := run_bind_eq_ok.mp hrequest
      cases hreturn
      obtain ⟨p, _, hrows, _⟩ := hdb
      exact KeysConsistent.of_runDkg ht hrows hdkg
    | refresh coins =>
      obtain ⟨response, _, hrefresh, hreturn⟩ := run_bind_eq_ok.mp hrequest
      cases hreturn
      exact hdb.refreshNetwork hrefresh

/-- A new network refuses to be refreshed. -/
theorem refreshNetwork_created {coins : PartyDraws} {response : RefreshResponse}
    {net : NetworkRow} (hnet : db.getNetwork networkId = some net)
    (hstate : net.state = "created") :
    (refreshNetwork networkId coins).run exec db ≠ (.ok response, db') := by
  intro h
  rw [refreshNetwork, run_bind_eq_ok] at h
  obtain ⟨row, _, hfetch, h⟩ := h
  obtain ⟨hrow, rfl⟩ := run_fetchNetwork_eq_ok.mp hfetch
  cases hnet.symm.trans hrow
  rw [if_pos (by rw [hstate]; decide)] at h
  cases h

/-- The requests on a new network start with a key generation, which decides
that the number of its nodes did not wrap. -/
theorem KeysConsistent.of_created {requests : List KeyRequest} (ht : t ≤ n)
    (hdb : Provisioned db networkId n t share) {net : NetworkRow}
    (hnet : db.getNetwork networkId = some net) (hstate : net.state = "created")
    (hrequests : requests ≠ [])
    (h : (requests.forM (KeyRequest.handle networkId)).run exec db = (.ok (), db')) :
    n ≤ 65535 ∧ KeysConsistent db' networkId n t := by
  obtain ⟨request, requests, rfl⟩ := List.exists_cons_of_ne_nil hrequests
  obtain ⟨_, next, hrequest, hrest⟩ := run_bind_eq_ok.mp h
  cases request with
  | dkg coins =>
    obtain ⟨response, _, hdkg, hreturn⟩ := run_bind_eq_ok.mp hrequest
    cases hreturn
    exact ⟨(runDkg_stores ht hdb hdkg).1, (KeysConsistent.of_runDkg ht hdb hdkg).forM ht hrest⟩
  | refresh coins =>
    obtain ⟨response, _, hrefresh, _⟩ := run_bind_eq_ok.mp hrequest
    exact absurd hrefresh (refreshNetwork_created hnet hstate)

end Sigimora.Server
