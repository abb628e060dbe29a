import Sigimora.Server.Faults
import Sigimora.Server.KeyRequests
import Sigimora.Server.Lifecycle

/-!
# Key rotation with failing statements

A request that replaces keys reads the rows of the network and then issues its
updates one by one. If one of them fails, the updates before it remain. The rows
are as before exactly if these updates gave every row the values that it held.
-/

namespace Sigimora.Server

open Handler Program

variable [Curve] {db db' : Db} {networkId : String} {faults : Faults DbError}

/-! ## The updates of a request -/

/-- Whether the request is admitted in the state that the network is in. -/
def KeyRequest.Admits (net : NetworkRow) : KeyRequest → Prop
  | .dkg _ => net.state = "created" ∨ net.state = "dkg_complete"
  | .refresh _ => net.state = "dkg_complete"

/-- The answer to a request that is not. -/
def KeyRequest.refusal (net : NetworkRow) : KeyRequest → ApiError
  | .dkg _ => .badRequest
    s!"network is in state {net.state.quote}, expected 'created' or 'dkg_complete'"
  | .refresh _ => .badRequest s!"network is in state {net.state.quote}, need 'dkg_complete'"

instance (net : NetworkRow) (request : KeyRequest) : Decidable (request.Admits net) :=
  match request with
  | .dkg _ => inferInstanceAs (Decidable (_ ∨ _))
  | .refresh _ => inferInstanceAs (Decidable (_ = _))

/-- The updates of a refreshed row. -/
def refreshUpdates (networkId : String) (epoch : ℕ) (entry : NodeRow × Scalar) : List Stmt :=
  [.updateNodeSecret networkId (UInt16.ofNat entry.1.nodeId) entry.2.toBytes,
    .updateNodeEpoch entry.1.id epoch]

/-- The updates that the request issues after it has read the rows. -/
def KeyRequest.updates (networkId : String) (net : NetworkRow) (rows : List NodeRow) :
    KeyRequest → Outcome ApiError (List Stmt)
  | .dkg coins => do
    let outputs ← dkgOutputs net.n net.t coins
    let first ← Outcome.index outputs 0
    return outputs.zipIdx.map (fun entry =>
        .updateNodeSecret networkId (UInt16.ofNat (entry.2 + 1)) entry.1.mySecret.toBytes) ++
      [.updateNetworkState networkId "dkg_complete" (some first.collectivePk.toBytes)]
  | .refresh coins => do
    let keys ← refreshedKeys net.n net.t coins rows
    let _ ← refreshInvariant net.n net.t keys
    let epoch := (rows.head?.map NodeRow.epoch).getD 0 + 1
    return (rows.zip keys.2).flatMap (refreshUpdates networkId epoch)

/-- A refresh computes a key for every row. -/
theorem length_refreshedKeys {n t : ℕ} {coins : PartyDraws} {rows : List NodeRow}
    {keys : List Scalar × List Scalar} (h : refreshedKeys n t coins rows = .ok keys) :
    keys.2.length = rows.length := by
  obtain ⟨current, hcurrent, h⟩ := Outcome.bind_eq_ok.mp h
  obtain ⟨after, hafter, h⟩ := Outcome.bind_eq_ok.mp h
  cases h
  rw [← (Outcome.mapM_eq_ok_iff.mp hafter).length_eq, List.length_zipIdx,
    (Outcome.mapM_eq_ok_iff.mp hcurrent).length_eq]

omit [Curve] in
/-- The loop over the rows finds a key for each of them. -/
theorem forM_refreshUpdates (networkId : String) (epoch : ℕ) {keys : List Scalar}
    {rows : List NodeRow} {start : ℕ} (hlength : start + rows.length = keys.length) :
    ((rows.zipIdx start).forM fun entry => do
      let key ← lift (Outcome.index keys entry.2)
      query (.updateNodeSecret networkId (UInt16.ofNat entry.1.nodeId) key.toBytes)
      query (.updateNodeEpoch entry.1.id epoch)) =
    ((rows.zip (keys.drop start)).flatMap (refreshUpdates networkId epoch)).forM execute := by
  induction rows generalizing start with
  | nil => rfl
  | cons row rows ih =>
    rw [List.length_cons] at hlength
    have hstart : start < keys.length := by omega
    have hkey : (Outcome.index keys start : Outcome ApiError Scalar) = .ok keys[start] :=
      Outcome.index_eq_ok.mpr (List.getElem?_eq_getElem hstart)
    have hrest := @ih (start + 1) (by omega)
    simp only [List.forM_eq_forM] at hrest ⊢
    rw [List.zipIdx_cons, List.drop_eq_getElem_cons hstart, List.zip_cons_cons,
      List.flatMap_cons, List.forM_append, List.forM_cons, hrest]
    simp only [hkey, refreshUpdates, List.forM_cons, List.forM_nil, execute, Program.bind_assoc]
    rfl

/-- **Shape of a request.** It reads the rows, and then issues its updates. -/
theorem KeyRequest.handle_eq (request : KeyRequest) : request.handle networkId = (do
    let net ← fetchNetwork networkId
    if request.Admits net then
      let rows ← loadNodes networkId net.n
      let stmts ← lift (request.updates networkId net rows)
      stmts.forM execute
    else fail (request.refusal net)) := by
  cases request with
  | dkg coins =>
    rw [handle, runDkg, Program.bind_assoc]
    refine congrArg (fetchNetwork networkId >>= ·) (funext fun net => ?_)
    by_cases hstate : net.state ≠ "created" ∧ net.state ≠ "dkg_complete"
    · have hrefused : ¬ (KeyRequest.dkg coins).Admits net := not_or.mpr hstate
      rw [if_pos hstate, if_neg hrefused]
      rfl
    · have hadmitted : (KeyRequest.dkg coins).Admits net := by
        rw [Admits]
        tauto
      rw [if_neg hstate, if_pos hadmitted, Program.bind_assoc]
      refine congrArg (loadNodes networkId net.n >>= ·) (funext fun rows => ?_)
      rw [updates]
      simp only [lift_bind, Program.bind_assoc]
      refine congrArg (lift _ >>= ·) (funext fun outputs => ?_)
      refine congrArg (lift _ >>= ·) (funext fun first => ?_)
      simp only [lift_pure, ok_bind, List.forM_eq_forM, List.forM_append, List.forM_map,
        List.forM_cons, List.forM_nil, execute, LawfulMonad.pure_bind, bind_pure_unit]
  | refresh coins =>
    rw [handle, refreshNetwork, Program.bind_assoc]
    refine congrArg (fetchNetwork networkId >>= ·) (funext fun net => ?_)
    by_cases hstate : net.state ≠ "dkg_complete"
    · have hrefused : ¬ (KeyRequest.refresh coins).Admits net := hstate
      rw [if_pos hstate, if_neg hrefused]
      rfl
    · have hadmitted : (KeyRequest.refresh coins).Admits net := not_not.mp hstate
      rw [if_neg hstate, if_pos hadmitted, Program.bind_assoc]
      refine congrArg (loadNodes networkId net.n >>= ·) (funext fun rows => ?_)
      rw [updates]
      cases hkeys : refreshedKeys net.n net.t coins rows with
      | error e => rfl
      | ok keys =>
        have hlength : 0 + rows.length = keys.2.length := by
          rw [length_refreshedKeys hkeys, Nat.zero_add]
        have hloop := forM_refreshUpdates networkId
          ((rows.head?.map NodeRow.epoch).getD 0 + 1) hlength
        rw [List.drop_zero] at hloop
        simp only [Outcome.ok_bind, lift_bind, lift_ok, lift_pure, ok_bind, Program.bind_assoc]
        refine congrArg (lift _ >>= ·) (funext fun invariant => ?_)
        rw [← hloop]
        exact Program.bind_pure _

/-! ## What the updates change -/

/-- What a statement makes of the row of a node. -/
def Stmt.onNode : Stmt → NodeRow → NodeRow
  | .updateNodeSecret networkId nodeId secretKey, row =>
    if row.networkId = networkId ∧ row.nodeId = nodeId.toNat then { row with secretKey } else row
  | .updateNodeEpoch id epoch, row => if row.id = id then { row with epoch } else row
  | _, row => row

/-- The statements that rewrite rows of nodes. -/
def Stmt.isNodeUpdate : Stmt → Bool
  | .updateNodeSecret _ _ _ => true
  | .updateNodeEpoch _ _ => true
  | _ => false

/-- What the statements make of the row of a node, one after another. -/
def rewriteNode (stmts : List Stmt) (row : NodeRow) : NodeRow :=
  stmts.foldl (fun row s => s.onNode row) row

omit [Curve] in
/-- An update of a node is an update. -/
theorem Stmt.isUpdate_of_isNodeUpdate {s : Stmt} (h : s.isNodeUpdate = true) :
    s.isUpdate = true := by
  cases s with
  | updateNodeSecret networkId nodeId secretKey => rfl
  | updateNodeEpoch id epoch => rfl
  | _ => cases h

omit [Curve] in
/-- Updates of nodes rewrite every row of a node and no row of a network. -/
theorem execAll_nodeUpdates {stmts : List Stmt} (h : ∀ s ∈ stmts, s.isNodeUpdate = true)
    (db : Db) : (execAll stmts db).networks = db.networks ∧
      (execAll stmts db).nodes = db.nodes.map (rewriteNode stmts) := by
  induction stmts generalizing db with
  | nil => exact ⟨rfl, (List.map_id _).symm⟩
  | cons s stmts ih =>
    obtain ⟨hnetworks, hnodes⟩ := ih (fun s hs => h s (List.mem_cons_of_mem _ hs)) (exec s db).2
    have hs : (exec s db).2.networks = db.networks ∧
        (exec s db).2.nodes = db.nodes.map s.onNode := by
      have hupdate := h s List.mem_cons_self
      cases s with
      | updateNodeSecret networkId nodeId secretKey => exact ⟨rfl, rfl⟩
      | updateNodeEpoch id epoch => exact ⟨rfl, rfl⟩
      | _ => cases hupdate
    refine ⟨hnetworks.trans hs.1, hnodes.trans ?_⟩
    rw [hs.2, List.map_map]
    rfl

omit [Curve] in
/-- A refresh only updates nodes. -/
theorem isNodeUpdate_refreshUpdates (networkId : String) (epoch : ℕ)
    (entries : List (NodeRow × Scalar)) :
    ∀ s ∈ entries.flatMap (refreshUpdates networkId epoch), s.isNodeUpdate = true := by
  intro s hs
  obtain ⟨entry, _, hs⟩ := List.mem_flatMap.mp hs
  simp only [refreshUpdates, List.mem_cons, List.not_mem_nil, or_false] at hs
  rcases hs with rfl | rfl <;> rfl

/-- All updates but the last are updates of nodes. -/
theorem KeyRequest.updates_kinds {request : KeyRequest} {net : NetworkRow} {rows : List NodeRow}
    {stmts : List Stmt} (h : request.updates networkId net rows = .ok stmts) :
    (∀ s ∈ stmts, s.isUpdate = true) ∧ ∀ s ∈ stmts.dropLast, s.isNodeUpdate = true := by
  cases request with
  | dkg coins =>
    obtain ⟨outputs, _, h⟩ := Outcome.bind_eq_ok.mp h
    obtain ⟨first, _, h⟩ := Outcome.bind_eq_ok.mp h
    cases h
    constructor
    · intro s hs
      rcases List.mem_append.mp hs with hs | hs
      · obtain ⟨entry, _, rfl⟩ := List.mem_map.mp hs
        rfl
      · rw [List.mem_singleton.mp hs]
        rfl
    · intro s hs
      rw [List.dropLast_concat] at hs
      obtain ⟨entry, _, rfl⟩ := List.mem_map.mp hs
      rfl
  | refresh coins =>
    obtain ⟨keys, _, h⟩ := Outcome.bind_eq_ok.mp h
    obtain ⟨invariant, _, h⟩ := Outcome.bind_eq_ok.mp h
    cases h
    have hnodes := isNodeUpdate_refreshUpdates networkId
      ((rows.head?.map NodeRow.epoch).getD 0 + 1) (rows.zip keys.2)
    exact ⟨fun s hs => Stmt.isUpdate_of_isNodeUpdate (hnodes s hs),
      fun s hs => hnodes s (List.dropLast_subset _ hs)⟩

/-! ## All or nothing -/

/-- If the request is answered with an error, the rows of networks and nodes are as before. -/
def KeyRequest.AllOrNothing (networkId : String) (db : Db) (faults : Faults DbError)
    (request : KeyRequest) : Prop :=
  ∀ e after, (request.handle networkId).run execFaulty (db, faults) = (.error (.err e), after) →
    after.1.networks = db.networks ∧ after.1.nodes = db.nodes ∧
      ∀ n t, KeysConsistent db networkId n t → KeysConsistent after.1 networkId n t

/-- The request gets as far as its updates, unless a read fails. -/
def KeyRequest.Plans (networkId : String) (db : Db) (request : KeyRequest) (stmts : List Stmt) :
    Prop :=
  ∃ net, db.getNetwork networkId = some net ∧ request.Admits net ∧
    (db.getNodesByNetwork networkId).length = net.n ∧
    request.updates networkId net (db.getNodesByNetwork networkId) = .ok stmts

/-- If an update is the first statement to fail, the updates before it give every row
of a node the values that it held. The two reads come before the updates. -/
def KeyRequest.FailsUnchanged (networkId : String) (db : Db) (faults : Faults DbError)
    (request : KeyRequest) : Prop :=
  ∀ stmts k e, request.Plans networkId db stmts → k < stmts.length → faults.First (2 + k) e →
    ∀ row ∈ db.nodes, rewriteNode (stmts.take k) row = row

/-- Only the networks and nodes count. -/
theorem KeysConsistent.of_eq {n t : ℕ} (h : KeysConsistent db networkId n t)
    (hnetworks : db'.networks = db.networks) (hnodes : db'.nodes = db.nodes) :
    KeysConsistent db' networkId n t := by
  obtain ⟨p, hdegree, hrows, hkey⟩ := h
  exact ⟨p, hdegree, hrows.of_eq hnetworks hnodes, hkey.of_eq hnetworks⟩

/-- What the updates before the one that fails leave of the rows. -/
theorem KeyRequest.take_updates {request : KeyRequest} {net : NetworkRow} {rows : List NodeRow}
    {stmts : List Stmt} (h : request.updates networkId net rows = .ok stmts) {k : ℕ}
    (hk : k < stmts.length) (db : Db) :
    (execAll (stmts.take k) db).networks = db.networks ∧
      (execAll (stmts.take k) db).nodes = db.nodes.map (rewriteNode (stmts.take k)) := by
  refine execAll_nodeUpdates (fun s hs => (updates_kinds h).2 s ?_) db
  have htake : stmts.take k = stmts.dropLast.take k := by
    rw [List.dropLast_eq_take, List.take_take, Nat.min_eq_left (by omega)]
  rw [htake] at hs
  exact List.mem_of_mem_take hs

/-- The request stops and leaves the database alone, or it issues its updates. -/
theorem KeyRequest.run_handle_cases (request : KeyRequest) :
    (∃ fault after, (request.handle networkId).run execFaulty (db, faults) =
      (.error fault, db, after)) ∨
    ∃ stmts, request.Plans networkId db stmts ∧ (∀ i < 2, faults i = none) ∧
      (request.handle networkId).run execFaulty (db, faults) =
        (stmts.forM execute).run execFaulty (db, faults.drop 2) := by
  rw [handle_eq]
  rcases run_fetchNetwork_faulty networkId _ with ⟨_, e, hrun⟩ | ⟨net, hnone, hnet, hrun⟩
  · exact Or.inl ⟨_, _, hrun⟩
  rw [hrun]
  split
  · rename_i hadmitted
    rcases run_loadNodes_faulty networkId net.n _ with ⟨_, e, hrun⟩ | ⟨hnone', hlength, hrun⟩
    · exact Or.inl ⟨_, _, hrun⟩
    rw [hrun, Faults.drop_drop]
    cases hupdates : request.updates networkId net (db.getNodesByNetwork networkId) with
    | error fault => exact Or.inl ⟨_, _, rfl⟩
    | ok stmts =>
      refine Or.inr ⟨stmts, ⟨net, hnet, hadmitted, hlength, hupdates⟩, ?_, rfl⟩
      intro i hi
      obtain rfl | rfl : i = 0 ∨ i = 1 := by omega
      · exact hnone
      · exact hnone'
  · exact Or.inl ⟨_, _, rfl⟩

/-- A request that has read its rows runs its plan. -/
theorem KeyRequest.run_handle_of_plans {request : KeyRequest} {stmts : List Stmt}
    (h : request.Plans networkId db stmts) (hclear : ∀ i < 2, faults i = none) :
    (request.handle networkId).run execFaulty (db, faults) =
      (stmts.forM execute).run execFaulty (db, faults.drop 2) := by
  obtain ⟨net, hnet, hadmitted, hlength, hupdates⟩ := h
  rw [handle_eq, run_bind_of_ok (run_fetchNetwork_of_some (hclear 0 (by decide)) hnet),
    if_pos hadmitted, run_bind_of_ok (run_loadNodes_of_length (hclear 1 (by decide)) hlength),
    hupdates, Faults.drop_drop]
  rfl

/-- **Key rotation.** A request that replaces keys is all or nothing on a database
whose statements can fail exactly if no update fails after others have changed a row. -/
theorem KeyRequest.allOrNothing_iff (request : KeyRequest) :
    request.AllOrNothing networkId db faults ↔ request.FailsUnchanged networkId db faults := by
  constructor
  · intro hall stmts k e hplans hk hfirst row hrow
    have hclear : ∀ i < 2, faults i = none := fun i hi => hfirst.2 i (by omega)
    have hdrop : (faults.drop 2).First k e := (Faults.first_drop_iff hclear).mpr hfirst
    obtain ⟨net, _, _, _, hupdates⟩ := id hplans
    have hrun := (run_handle_of_plans hplans hclear).trans
      (run_updates_of_first (updates_kinds hupdates).1 hdrop hk)
    obtain ⟨_, hnodes, _⟩ := hall _ _ hrun
    have hmap : db.nodes.map (rewriteNode (stmts.take k)) = db.nodes.map id := by
      rw [List.map_id, ← (take_updates hupdates hk db).2]
      exact hnodes
    exact List.map_inj_left.mp hmap row hrow
  · intro hunchanged e after hrun
    rcases run_handle_cases request with ⟨fault, faults', hstop⟩ | ⟨stmts, hplans, hclear, hgo⟩
    · cases hstop.symm.trans hrun
      exact ⟨rfl, rfl, fun n t h => h⟩
    rw [hgo] at hrun
    obtain ⟨net, _, _, _, hupdates⟩ := id hplans
    have hkinds := (updates_kinds hupdates).1
    rcases (faults.drop 2).clear_or_first stmts.length with hnone | ⟨k, hk, e', hfirst⟩
    · cases (run_updates_of_clear hkinds hnone).symm.trans hrun
    · cases (run_updates_of_first hkinds hfirst hk).symm.trans hrun
      obtain ⟨hnetworks, hnodes⟩ := take_updates hupdates hk db
      have hsame : (execAll (stmts.take k) db).nodes = db.nodes := by
        rw [hnodes]
        conv_rhs => rw [← List.map_id db.nodes]
        exact List.map_congr_left
          (hunchanged stmts k e' hplans hk ((Faults.first_drop_iff hclear).mp hfirst))
      exact ⟨hnetworks, hsame, fun n t h => h.of_eq hnetworks hsame⟩

/-- The second update of a further key generation on the network of two nodes fails. -/
def haltedKeys : Except (Fault ApiError) Unit × (Db × Faults DbError) :=
  letI := exponentCurve
  ((KeyRequest.dkg fun _ _ => Scalar.ofId 3).handle "a").run execFaulty
    (twoNodeKeys.2, fun k => if k = 3 then some (.constraint "database is locked") else none)

omit [Curve] in
/-- The first node keeps its new share, so that the shares of the two nodes no longer
belong to the stored collective key. -/
theorem KeyRequest.dkg_halfway :
    letI := exponentCurve
    ¬ (KeyRequest.dkg fun _ _ => Scalar.ofId 3).AllOrNothing "a" twoNodeKeys.2
      (fun k => if k = 3 then some (.constraint "database is locked") else none) := by
  let := exponentCurve
  intro hall
  have hrefused : Outcome.isErr haltedKeys.1 = true := by decide +kernel
  obtain ⟨e, hrun⟩ := Outcome.exists_err_of_isErr hrefused
  obtain ⟨_, hnodes, _⟩ := hall e haltedKeys.2 hrun
  have hdiffer : haltedKeys.2.1.nodes.map NodeRow.secretKey ≠
      twoNodeKeys.2.nodes.map NodeRow.secretKey := by decide +kernel
  exact hdiffer (congrArg _ hnodes)

end Sigimora.Server
