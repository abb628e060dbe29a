import Sigimora.Server.Lifecycle

/-!
# New networks

The number of nodes that a request asks for is checked only from below, and the
loop that inserts them runs over 16-bit ids. A new network is complete, and its
keys can be generated, exactly when the number fits.
-/

namespace Sigimora.Server

open Handler Program

variable [Curve] {db db' : Db} {networkId : String} {n t : ℕ}
  {share : ParticipantId → Scalar}

/-- The network has one row for each of the node ids `1..n`, and its keys can be generated. -/
structure NetworkComplete (db : Db) (networkId : String) (n : ℕ) : Prop where
  nodes : (db.getNodesByNetwork networkId).map NodeRow.nodeId = List.range' 1 n
  usable : ∀ coins, ∃ response db', (runDkg networkId coins).run exec db = (.ok response, db')

/-- The ids of the rows of a network are those of the range. -/
theorem Provisioned.nodeIds (hdb : Provisioned db networkId n t share) :
    (db.getNodesByNetwork networkId).map NodeRow.nodeId =
      List.range' 1 (UInt16.ofNat n).toNat := by
  rw [← map_toNat_participants, ← List.forall₂_eq_eq_eq, List.forall₂_map_left_iff,
    List.forall₂_map_right_iff]
  exact hdb.rows.imp fun _ _ h => h.1

/-- The rows are complete exactly when the number of nodes did not wrap. -/
theorem Provisioned.nodes_iff (hdb : Provisioned db networkId n t share) :
    (db.getNodesByNetwork networkId).map NodeRow.nodeId = List.range' 1 n ↔ n ≤ 65535 := by
  rw [hdb.nodeIds]
  constructor
  · intro h
    have hsize : (UInt16.ofNat n).toNat = n := by simpa using congrArg List.length h
    have hbound : (UInt16.ofNat n).toNat < 2 ^ 16 := UInt16.toNat_lt _
    omega
  · intro hn
    rw [toNat_ofNat_of_le hn]

/-- The key generation succeeds on a network of at most 65535 nodes. -/
theorem run_runDkg_exists (hdb : Provisioned db networkId n t share) {net : NetworkRow}
    (hnet : db.getNetwork networkId = some net) (hstate : net.state = "created") (hpos : 1 ≤ n)
    (hn : n ≤ 65535) (ht : t ≤ n) (coins : PartyDraws) :
    ∃ response db', (runDkg networkId coins).run exec db = (.ok response, db') := by
  obtain ⟨stored, hstored, hn', ht', _⟩ := hdb.network
  cases hnet.symm.trans hstored
  have hlength : (db.getNodesByNetwork networkId).length = net.n := by
    rw [hdb.rows.length_eq, length_participants hn, hn']
  obtain ⟨outputs, houtputs, hsize, _, _⟩ := dkgOutputs_eq_ok hn ht coins
  obtain ⟨first, hfirst⟩ : ∃ first, outputs[0]? = some first :=
    ⟨_, List.getElem?_eq_getElem (by omega)⟩
  have hkeys : dkgOutputs net.n net.t coins = .ok outputs := by rw [hn', ht', houtputs]
  have hindex : (Outcome.index outputs 0 : Outcome ApiError DkgOutput) = .ok first :=
    Outcome.index_eq_ok.mpr hfirst
  have hopen : ¬ (net.state ≠ "created" ∧ net.state ≠ "dkg_complete") := fun h => h.1 hstate
  unfold runDkg
  rw [run_bind_of_ok (run_fetchNetwork_eq_ok.mpr ⟨hnet, rfl⟩), if_neg hopen,
    run_bind_of_ok (run_loadNodes_eq_ok.mpr ⟨rfl, hlength, rfl⟩),
    run_bind_of_ok (run_lift_eq_ok hkeys), run_bind_of_ok (run_lift_eq_ok hindex)]
  exact ⟨_, _, run_bind_eq_ok.mpr ⟨_, _,
    run_forM_eq_ok (storeOutput networkId) (fun _ _ _ => rfl) db, rfl⟩⟩

/-- **New networks.** A network that was created is complete, and its keys can be generated,
exactly when it has at most 65535 nodes. -/
theorem networkComplete_iff {req : CreateNetworkRequest} {draws : CreationDraws}
    {response : CreateNetworkResponse}
    (h : (createNetwork req draws).run exec db = (.ok response, db')) :
    NetworkComplete db' response.network.id req.n ↔ req.n ≤ 65535 := by
  obtain ⟨hid, ht, htn, ⟨net, hnet, hstate⟩, hdb⟩ := createNetwork_provisioned h
  rw [hid]
  constructor
  · intro hcomplete
    exact hdb.nodes_iff.mp hcomplete.nodes
  · intro hn
    exact ⟨hdb.nodes_iff.mpr hn, run_runDkg_exists hdb hnet hstate (by omega) hn htn.le⟩

omit [Curve] in
/-- A network of two nodes is complete. -/
theorem networkComplete_iff_two_nodes :
    letI := exponentCurve
    NetworkComplete twoNodeCreation.2 "a" 2 := by
  let := exponentCurve
  have hcreated : twoNodeCreation.1.isOk = true := by decide +kernel
  obtain ⟨created, hcreate⟩ := exists_ok_of_isOk hcreated
  have hid : created.network.id = "a" := (createNetwork_provisioned hcreate).1
  exact hid ▸ (networkComplete_iff hcreate).mpr (by decide)

omit [Curve] in
/-- The draws of a network whose number of nodes wraps to zero: it has no nodes. -/
theorem wrapped_network_incomplete :
    letI := exponentCurve
    ¬ ∀ (req : CreateNetworkRequest) (draws : CreationDraws) (response : CreateNetworkResponse)
      (db db' : Db), (createNetwork req draws).run exec db = (.ok response, db') →
      NetworkComplete db' response.network.id req.n := by
  let := exponentCurve
  intro h
  have hcreated : ((createNetwork ⟨65536, 1⟩ twoNodeDraws).run exec Db.empty).1.isOk = true := by
    decide +kernel
  obtain ⟨created, hcreate⟩ := exists_ok_of_isOk hcreated
  have hcomplete := h _ _ _ _ _ hcreate
  obtain ⟨hid, _, _, _, hdb⟩ := createNetwork_provisioned hcreate
  rw [hid] at hcomplete
  exact absurd (hdb.nodes_iff.mp hcomplete.nodes) (by decide)

end Sigimora.Server
