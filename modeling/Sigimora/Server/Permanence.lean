import Sigimora.Server.Disclosure
import Sigimora.Server.KeyLifetime

/-!
# What stands

Whatever requests are served, side by side and through restarts, what was recorded
stays recorded, and the members of a network stay its members. Hence a trace that was
answered once is answered in the same way forever, and so is a verification as long
as the keys of the network are not generated anew.
-/

namespace Sigimora.Server

open Handler Program

/-! ## Records -/

/-- The records of the first database are the oldest ones of the second. -/
structure RecordsKept (db db' : Db) : Prop where
  ledger : db.ledger <+: db'.ledger
  signedTxs : db.signedTxs <+: db'.signedTxs
  auditLog : db.auditLog <+: db'.auditLog

namespace RecordsKept

variable {db db' db'' : Db}

/-- All records are kept at first. -/
theorem refl (db : Db) : RecordsKept db db :=
  ⟨List.prefix_refl _, List.prefix_refl _, List.prefix_refl _⟩

/-- What is kept twice is kept. -/
theorem trans (h : RecordsKept db db') (h' : RecordsKept db' db'') : RecordsKept db db'' :=
  ⟨h.ledger.trans h'.ledger, h.signedTxs.trans h'.signedTxs, h.auditLog.trans h'.auditLog⟩

/-- A statement on other tables. -/
theorem of_writesIn {s : Stmt} (h : s.writesIn [.networks, .nodes, .apiKeys] = true) (db : Db) :
    RecordsKept db (exec s db).2 := by
  have hagree (table : Table) (htable : table ∉ [Table.networks, .nodes, .apiKeys]) :
      Db.Agree table db (exec s db).2 :=
    exec_agree (Stmt.writes_ne_of_writesIn h htable) db
  have hledger : (exec s db).2.ledger = db.ledger := hagree .ledger (by decide)
  have htxs : (exec s db).2.signedTxs = db.signedTxs := hagree .signedTxs (by decide)
  have haudit : (exec s db).2.auditLog = db.auditLog := hagree .auditLog (by decide)
  constructor
  · rw [hledger]
  · rw [htxs]
  · rw [haudit]

/-- A transaction that is found is found ever after. -/
theorem getSignedTx (h : RecordsKept db db') {txId : String} {tx : SignedTxRow}
    (htx : db.getSignedTx txId = some tx) : db'.getSignedTx txId = some tx := by
  obtain ⟨later, hlater⟩ := h.signedTxs
  rw [Db.getSignedTx] at htx ⊢
  rw [← hlater, List.find?_append, htx, Option.some_or]

end RecordsKept

/-- **Statements.** Records are only ever added. -/
theorem exec_recordsKept (s : Stmt) (db : Db) : RecordsKept db (exec s db).2 := by
  have hkept := RecordsKept.refl db
  cases s with
  | insertLedgerEntry entry =>
    simp only [exec, Db.insertLedgerEntry]
    split
    · exact ⟨List.prefix_append _ _, hkept.signedTxs, hkept.auditLog⟩
    · exact hkept
  | insertSignedTx tx =>
    simp only [exec, Db.insertSignedTx]
    split
    · exact hkept
    · split
      · exact ⟨hkept.ledger, List.prefix_append _ _, hkept.auditLog⟩
      · exact hkept
  | insertAuditLog entry => exact ⟨hkept.ledger, hkept.signedTxs, List.prefix_append _ _⟩
  | _ => exact RecordsKept.of_writesIn rfl db

/-! ## Networks -/

variable [Curve]

/-- The network is still there, with the same members and the same tracking key. Its collective
key is the same too, unless the network may have been rekeyed, and then it is a point. -/
structure NetworkStands (rekeyed : Prop) (networkId : String) (db db' : Db) : Prop where
  members : SamePublic db db' networkId
  network : ∀ net, db.getNetwork networkId = some net →
    ∃ net', db'.getNetwork networkId = some net' ∧ net'.t = net.t ∧
      net'.trackingPk = net.trackingPk ∧
      (net'.collectivePk = net.collectivePk ∨
        rekeyed ∧ ∃ pk : G2Point, net'.collectivePk = some pk.toBytes)

section Networks

variable {rekeyed : Prop} {networkId : String} {db db' db'' : Db}

namespace NetworkStands

/-- A network whose rows stay the same stands. -/
theorem of_eq (hnetwork : db'.getNetwork networkId = db.getNetwork networkId)
    (hmembers : SamePublic db db' networkId) : NetworkStands rekeyed networkId db db' :=
  ⟨hmembers, fun net hnet => ⟨net, hnetwork.trans hnet, rfl, rfl, Or.inl rfl⟩⟩

/-- A network stands at first. -/
theorem refl (rekeyed : Prop) (networkId : String) (db : Db) :
    NetworkStands rekeyed networkId db db :=
  of_eq rfl rfl

/-- What stands twice stands. -/
theorem trans (h : NetworkStands rekeyed networkId db db')
    (h' : NetworkStands rekeyed networkId db' db'') : NetworkStands rekeyed networkId db db'' := by
  refine ⟨h'.members.trans h.members, fun net hnet => ?_⟩
  obtain ⟨net', hnet', ht, htracking, hcollective⟩ := h.network net hnet
  obtain ⟨net'', hnet'', ht', htracking', hcollective'⟩ := h'.network net' hnet'
  refine ⟨net'', hnet'', ht'.trans ht, htracking'.trans htracking, ?_⟩
  rcases hcollective' with hsame | hnew
  · rw [hsame]
    exact hcollective
  · exact Or.inr hnew

/-- A network that is known stays known. -/
theorem isSome (h : NetworkStands rekeyed networkId db db')
    (hknown : (db.getNetwork networkId).isSome = true) :
    (db'.getNetwork networkId).isSome = true := by
  obtain ⟨net, hnet⟩ := Option.isSome_iff_exists.mp hknown
  obtain ⟨net', hnet', _⟩ := h.network net hnet
  rw [hnet', Option.isSome_some]

end NetworkStands

/-- The statement adds no member to the network. It stores a collective key for it only if the
network may be rekeyed, and a share only if it may be rekeyed or refreshed. -/
def Stmt.Respects (rekeyed refreshed : Prop) (networkId : String) : Stmt → Prop
  | .insertNode node => node.networkId ≠ networkId
  | .updateNetworkState id state collectivePk => id = networkId →
    rekeyed ∧ state = "dkg_complete" ∧ ∃ pk : G2Point, collectivePk = some pk.toBytes
  | .updateNodeSecret id _ secretKey => id = networkId →
    (rekeyed ∨ refreshed) ∧ ∃ key : Scalar, secretKey = key.toBytes
  | _ => True

/-- Such a statement leaves the network alone, or it stores a collective key or a share. -/
theorem Stmt.Respects.cases {refreshed : Prop} {s : Stmt}
    (h : s.Respects rekeyed refreshed networkId) :
    s.Respects False False networkId ∨
    (rekeyed ∧ ∃ pk : G2Point,
      s = .updateNetworkState networkId "dkg_complete" (some pk.toBytes)) ∨
    (rekeyed ∨ refreshed) ∧ ∃ nodeId, ∃ key : Scalar,
      s = .updateNodeSecret networkId nodeId key.toBytes := by
  cases s with
  | insertNode node => exact Or.inl h
  | updateNetworkState id state collectivePk =>
    by_cases hid : id = networkId
    · obtain ⟨hrekeyed, hstate, pk, hpk⟩ := h hid
      exact Or.inr (Or.inl ⟨hrekeyed, pk, by rw [hid, hstate, hpk]⟩)
    · exact Or.inl fun hsame => absurd hsame hid
  | updateNodeSecret id nodeId secretKey =>
    by_cases hid : id = networkId
    · obtain ⟨hallowed, key, hkey⟩ := h hid
      exact Or.inr (Or.inr ⟨hallowed, nodeId, key, by rw [hid, hkey]⟩)
    · exact Or.inl fun hsame => absurd hsame hid
  | _ => exact Or.inl trivial

omit [Curve] in
/-- The row of a known network stays the one that is found. -/
theorem Db.getNetwork_insertNetwork_of_isSome (net : NetworkRow)
    (hknown : (db.getNetwork networkId).isSome = true) :
    (db.insertNetwork net).2.getNetwork networkId = db.getNetwork networkId := by
  unfold insertNetwork
  split
  · rfl
  · rw [getNetwork] at hknown
    rw [getNetwork, List.find?_append, Option.or_of_isSome hknown]
    rfl

/-- A known network whose keys may not be replaced is left alone. -/
theorem exec_sameNetwork_of_respects {s : Stmt} (hs : s.Respects False False networkId)
    (hknown : (db.getNetwork networkId).isSome = true) :
    SameNetwork db (exec s db).2 networkId := by
  cases s with
  | insertNetwork net =>
    have hnodes : Db.Agree .nodes db (exec (.insertNetwork net) db).2 :=
      exec_agree (fun hwrites => by cases hwrites) db
    refine ⟨Db.getNetwork_insertNetwork_of_isSome net hknown, ?_⟩
    rw [Db.getNodesByNetwork, show (exec (.insertNetwork net) db).2.nodes = db.nodes from hnodes]
    rfl
  | updateNetworkState id state collectivePk =>
    exact exec_sameNetwork (s := .updateNetworkState id state collectivePk) rfl
      (fun hid => (hs hid.symm).1) db
  | insertNode node => exact exec_sameNetwork (s := .insertNode node) rfl (Ne.symm hs) db
  | updateNodeSecret id nodeId secretKey =>
    exact exec_sameNetwork (s := .updateNodeSecret id nodeId secretKey) rfl
      (fun hid => (hs hid.symm).1.elim (fun h => h) fun h => h) db
  | updateNodeEpoch id epoch => exact ⟨rfl, Db.map_updateNodeEpoch _ _ _ fun _ => rfl⟩
  | _ => exact SameNetwork.of_writesIn rfl db

omit [Curve] in
/-- The public columns are among the key columns. -/
theorem SameNetwork.samePublic (h : SameNetwork db db' networkId) :
    SamePublic db db' networkId := by
  have hcolumns : NodeRow.publicColumns =
      (fun columns => (columns.1, columns.2.1)) ∘ NodeRow.keyColumns := rfl
  rw [SamePublic, hcolumns, ← List.map_map, ← List.map_map, h.keys]

/-- **Statements.** A known network stands. -/
theorem exec_networkStands {refreshed : Prop} {s : Stmt}
    (hs : s.Respects rekeyed refreshed networkId)
    (hknown : (db.getNetwork networkId).isSome = true) :
    NetworkStands rekeyed networkId db (exec s db).2 := by
  rcases hs.cases with hs | ⟨hrekeyed, pk, hstmt⟩ | ⟨-, nodeId, key, hstmt⟩
  · have hsame := exec_sameNetwork_of_respects hs hknown
    exact .of_eq hsame.network hsame.samePublic
  · rw [hstmt]
    exact ⟨rfl, fun net hnet => ⟨_, Db.getNetwork_updateNetworkState hnet _ _, rfl, rfl,
      Or.inr ⟨hrekeyed, pk, rfl⟩⟩⟩
  · generalize key.toBytes = secretKey at hstmt
    subst hstmt
    exact .of_eq rfl (exec_samePublic (s := .updateNodeSecret networkId nodeId secretKey) trivial
      db networkId)

end Networks

/-! ## Requests -/

/-- The request generates the keys of the network. -/
def ApiRequest.Rekeys (request : ApiRequest) (networkId : String) : Prop :=
  ∃ authorization usedAt coins, request = .authorized authorization usedAt (.runDkg networkId coins)

/-- The request refreshes the keys of the network. -/
def ApiRequest.Refreshes (request : ApiRequest) (networkId : String) : Prop :=
  ∃ authorization usedAt coins,
    request = .authorized authorization usedAt (.refreshNetwork networkId coins)

/-- Nodes are added to a network by the request that has created it, its key is replaced by key
generations, and the shares of its nodes are replaced by these and by refreshes. -/
def Stmt.Duly (rekeys refreshes : String → Prop) (h : List (Event Reply)) : Stmt → Prop
  | .insertNode node => ∃ net, net.id = node.networkId ∧ ⟨.insertNetwork net, .ok ()⟩ ∈ h
  | .updateNetworkState id state collectivePk =>
    rekeys id ∧ state = "dkg_complete" ∧ ∃ pk : G2Point, collectivePk = some pk.toBytes
  | .updateNodeSecret id _ secretKey =>
    (rekeys id ∨ refreshes id) ∧ ∃ key : Scalar, secretKey = key.toBytes
  | _ => True

section Requests

variable {α : Type} {rekeys refreshes : String → Prop} {h : List (Event Reply)}
  {networkId : String}

/-- A handler that writes neither networks nor nodes keeps them duly. -/
theorem WritesOnly.meets_duly {tables : List Table} {p : Handler α} (hp : WritesOnly tables p)
    (hnetworks : Table.networks ∉ tables) (hnodes : Table.nodes ∉ tables) :
    Meets (Stmt.Duly rekeys refreshes) (fun _ _ => True) h p := by
  refine (Only.meets hp h).weaken fun h s hs => ?_
  cases s with
  | insertNode node => exact absurd rfl (Stmt.writes_ne_of_writesIn hs hnodes)
  | updateNetworkState id state collectivePk =>
    exact absurd rfl (Stmt.writes_ne_of_writesIn hs hnetworks)
  | updateNodeSecret id nodeId secretKey =>
    exact absurd rfl (Stmt.writes_ne_of_writesIn hs hnodes)
  | _ => exact trivial

/-- A creation adds nodes only after its network was inserted. -/
theorem meets_createNetwork_duly (req : CreateNetworkRequest) (draws : CreationDraws) :
    Meets (Stmt.Duly rekeys refreshes) (fun _ _ => True) h (createNetwork req draws) := by
  simp only [createNetwork]
  split
  · exact meets_fail _
  split
  · exact meets_fail _
  refine Meets.bind (Q := fun h _ => ⟨.insertNetwork (newNetwork req draws), .ok ()⟩ ∈ h)
    (meets_query trivial fun _ => List.mem_append_right _ (List.mem_singleton_self _))
    fun h _ hinserted => ?_
  refine (Meets.forM hinserted fun id _ h hinserted => ?_).bind fun h _ _ => ?_
  · exact meets_query ⟨_, rfl, hinserted⟩ fun _ => List.mem_append_left _ hinserted
  · exact Meets.bind (Q := fun _ _ => True) (meets_query trivial fun _ => trivial)
      fun h _ _ => meets_ok.mpr trivial

/-- A key generation stores a point and scalars. -/
theorem meets_runDkg_duly (coins : PartyDraws) (hrekeys : rekeys networkId) :
    Meets (Stmt.Duly rekeys refreshes) (fun _ _ => True) [] (runDkg networkId coins) := by
  refine (meets_runDkg coins).weaken fun h s hs => ?_
  cases s with
  | insertNode node =>
    obtain ⟨_, _, _, _, _, hwrites⟩ := hs
    exact hwrites.elim
  | updateNetworkState id state collectivePk =>
    obtain ⟨_, _, _, _, _, hid, hstate, _, _, output, _, hpk⟩ := hs
    exact ⟨hid ▸ hrekeys, hstate, output.collectivePk, hpk⟩
  | updateNodeSecret id nodeId secretKey =>
    obtain ⟨_, _, _, _, _, hid, _, _, entry, _, _, hkey⟩ := hs
    exact ⟨Or.inl (hid ▸ hrekeys), entry.1.mySecret, hkey⟩
  | _ => exact trivial

/-- A refresh stores scalars. -/
theorem meets_refreshNetwork_duly (coins : PartyDraws) (hrefreshes : refreshes networkId) :
    Meets (Stmt.Duly rekeys refreshes) (fun _ _ => True) [] (refreshNetwork networkId coins) := by
  refine (meets_refreshNetwork coins).weaken fun h s hs => ?_
  cases s with
  | insertNode node =>
    obtain ⟨_, _, _, _, _, hwrites⟩ := hs
    exact hwrites.elim
  | updateNetworkState id state collectivePk =>
    obtain ⟨_, _, _, _, _, hwrites⟩ := hs
    exact hwrites.elim
  | updateNodeSecret id nodeId secretKey =>
    obtain ⟨_, _, _, _, _, hid, _, _, _, _, _, key, _, hkey⟩ := hs
    exact ⟨Or.inr (hid ▸ hrefreshes), key, hkey⟩
  | _ => exact trivial

variable [Cipher] [JsonIds] [Rfc3339]

/-- Every call keeps them duly, but for the networks that it gives new keys. -/
theorem Call.meets_duly (user : AuthenticatedUser) (call : Call)
    (hrekeys : ∀ networkId coins, call = .runDkg networkId coins → rekeys networkId)
    (hrefreshes : ∀ networkId coins, call = .refreshNetwork networkId coins →
      refreshes networkId) :
    Meets (Stmt.Duly rekeys refreshes) (fun _ _ => True) [] (call.handle user) := by
  cases call with
  | createNetwork req draws => exact meets_createNetwork_duly req draws
  | runDkg networkId coins => exact meets_runDkg_duly coins (hrekeys networkId coins rfl)
  | refreshNetwork networkId coins =>
    exact meets_refreshNetwork_duly coins (hrefreshes networkId coins rfl)
  | _ => exact (Call.writesOnly user _).meets_duly (by simp [Call.tables]) (by simp [Call.tables])

/-- **Requests.** Each of them adds nodes and replaces keys duly. -/
theorem ApiRequest.meets_duly (request : ApiRequest) :
    Meets (Stmt.Duly request.Rekeys request.Refreshes) (fun _ _ => True) [] request.serve := by
  cases request with
  | health elapsed elapsedAtEnd =>
    exact (writesOnly_healthCheck elapsed elapsedAtEnd).meets_duly List.not_mem_nil
      List.not_mem_nil
  | authorized authorization usedAt call =>
    have hextractor := writesOnly_fromRequestParts authorization usedAt
    refine (hextractor.meets_duly (h := []) (by decide) (by decide)).bind fun before user _ => ?_
    have hcall : Meets (Stmt.Duly (ApiRequest.authorized authorization usedAt call).Rekeys
        (ApiRequest.authorized authorization usedAt call).Refreshes)
        (fun _ _ => True) [] (call.handle user) := by
      refine call.meets_duly user ?_ ?_
      · rintro networkId coins rfl
        exact ⟨authorization, usedAt, coins, rfl⟩
      · rintro networkId coins rfl
        exact ⟨authorization, usedAt, coins, rfl⟩
    rw [← List.append_nil before]
    refine hcall.after before fun h s hs => ?_
    cases s with
    | insertNode node =>
      obtain ⟨net, hid, hinserted⟩ := hs
      exact ⟨net, hid, List.mem_append_right _ hinserted⟩
    | _ => exact hs

end Requests

/-! ## Lives -/

section Lives

variable [Cipher] [JsonIds] [Rfc3339] {networkId : String} {db : Db} {rekeyed refreshed : Prop}
  {J : Db → Prop}

namespace Life

/-- The requests where the life ends have only added records. -/
theorem recordsKept (life : Life) (db : Db) : RecordsKept db (life.apply db) := by
  have hstart : RecordsKept db
      ((ensureBootstrapKey life.bootstrapKeys life.draws).run exec db).2 :=
    Only.run (J := RecordsKept db) (only_true _)
      (fun s store _ h => h.trans (exec_recordsKept s store)) (RecordsKept.refl db)
  have hinvariant : (arrivals life.requests
      ((ensureBootstrapKey life.bootstrapKeys life.draws).run exec db).2).Invariant
      (fun _ _ _ => True) (fun _ _ _ => True) (fun _ store => RecordsKept db store) :=
    ⟨hstart, fun i => Only.meets (only_true _) []⟩
  exact (hinvariant.runSchedule (fun _ store _ s h _ => h.trans (exec_recordsKept s store))
    life.schedule).1

/-- What the statements that respect a known network preserve, a life preserves. -/
theorem preserves (life : Life) (hrekeyed : ∀ i, (life.requests i).Rekeys networkId → rekeyed)
    (hrefreshed : ∀ i, (life.requests i).Refreshes networkId → refreshed)
    (hknown : ∀ store, J store → (store.getNetwork networkId).isSome = true)
    (hstep : ∀ s store, J store → s.Respects rekeyed refreshed networkId → J (exec s store).2)
    (hdb : J db) : J (life.apply db) := by
  have hstart : J ((ensureBootstrapKey life.bootstrapKeys life.draws).run exec db).2 := by
    refine Only.run (J := J) (writesOnly_ensureBootstrapKey life.bootstrapKeys life.draws)
      (fun s store hs hstore => hstep s store hstore ?_) hdb
    cases s with
    | insertNode node => cases hs
    | updateNetworkState id state collectivePk => cases hs
    | updateNodeSecret id nodeId secretKey => cases hs
    | _ => exact trivial
  -- no request of this life has created the network, which was there before
  have hinvariant : (arrivals life.requests
      ((ensureBootstrapKey life.bootstrapKeys life.draws).run exec db).2).Invariant
      (fun i => Stmt.Duly (life.requests i).Rekeys (life.requests i).Refreshes)
      (fun _ _ _ => True)
      (fun log store => J store ∧ ∀ i net,
        (i, ⟨.insertNetwork net, .ok ()⟩) ∈ log → net.id ≠ networkId) :=
    ⟨⟨hstart, fun _ _ hmem => absurd hmem List.not_mem_nil⟩,
      fun i => (life.requests i).meets_duly⟩
  refine (hinvariant.runSchedule ?_ life.schedule).1.1
  rintro log store i s ⟨hstore, hcreated⟩ hduly
  refine ⟨hstep s store hstore ?_, fun j net hmem => ?_⟩
  · cases s with
    | insertNode node =>
      obtain ⟨net, hid, hinserted⟩ := hduly
      rw [Stmt.Respects, ← hid]
      exact hcreated i net (mem_history.mp hinserted)
    | updateNetworkState id state collectivePk =>
      rintro rfl
      exact ⟨hrekeyed i hduly.1, hduly.2⟩
    | updateNodeSecret id nodeId secretKey =>
      rintro rfl
      exact ⟨hduly.1.imp (hrekeyed i) (hrefreshed i), hduly.2⟩
    | _ => exact trivial
  · rcases List.mem_append.mp hmem with hmem | hmem
    · exact hcreated j net hmem
    · rintro rfl
      cases s with
      | insertNetwork net' =>
        obtain ⟨-, hevent⟩ := Prod.mk.inj (List.mem_singleton.mp hmem)
        obtain ⟨hstmt, hreply⟩ := Event.mk.inj hevent
        cases hstmt
        have hrefused : (Except.ok () : Reply (.insertNetwork net)) =
            (store.insertNetwork net).1 := eq_of_heq hreply
        rw [Db.insertNetwork, dif_pos (Db.mem_networks_iff.mpr (hknown store hstore))] at hrefused
        cases hrefused
      | _ =>
        obtain ⟨-, hevent⟩ := Prod.mk.inj (List.mem_singleton.mp hmem)
        cases hevent

end Life

/-- What the statements that respect a known network preserve, all lives of the server preserve. -/
theorem preserves_after (lives : List Life)
    (hrekeyed : ∀ life ∈ lives, ∀ i, (life.requests i).Rekeys networkId → rekeyed)
    (hrefreshed : ∀ life ∈ lives, ∀ i, (life.requests i).Refreshes networkId → refreshed)
    (hknown : ∀ store, J store → (store.getNetwork networkId).isSome = true)
    (hstep : ∀ s store, J store → s.Respects rekeyed refreshed networkId → J (exec s store).2)
    (hdb : J db) : J (Run.after Life.apply db lives) := by
  induction lives generalizing db with
  | nil => exact hdb
  | cons life lives ih =>
    rw [Run.after_cons]
    exact ih (fun later hlater => hrekeyed later (List.mem_cons_of_mem _ hlater))
      (fun later hlater => hrefreshed later (List.mem_cons_of_mem _ hlater))
      (life.preserves (hrekeyed life List.mem_cons_self) (hrefreshed life List.mem_cons_self)
        hknown hstep hdb)

/-! ## Answers -/

omit [Cipher] [JsonIds] [Rfc3339] in
/-- The members' keys are decoded from columns that are the same. -/
theorem SamePublic.mapM_decodeMemberPk {db' : Db} (h : SamePublic db db' networkId) :
    (db'.getNodesByNetwork networkId).mapM decodeMemberPk =
      (db.getNodesByNetwork networkId).mapM decodeMemberPk := by
  let decode (columns : ℕ × List UInt8) : Outcome ApiError (ParticipantId × G2Point) := do
    let pk ← decodeStoredPk s!"node {columns.1}" "invalid node PK" columns.2
    return (UInt16.ofNat columns.1, pk)
  have hdecode (rows : List NodeRow) :
      rows.mapM decodeMemberPk = (rows.map NodeRow.publicColumns).mapM decode := by
    rw [List.mapM_map]
    rfl
  rw [hdecode, hdecode, h]

omit [Cipher] [JsonIds] [Rfc3339] in
/-- A stored key is read back. -/
theorem decodeStoredPk_toBytes (owner invalid : String) (pk : G2Point) :
    decodeStoredPk owner invalid pk.toBytes = .ok pk := by
  rw [decodeStoredPk, if_neg (by simp), G2Point.fromBytes_toBytes, Outcome.mapErr_ok]

omit [Cipher] [JsonIds] [Rfc3339] in
/-- The keys of a network that stands can still be decoded. -/
theorem decodeNetworkPks_stands {rekeyed : Prop} {net net' : NetworkRow}
    {pks : G2Point × G2Point} (hpks : decodeNetworkPks net = .ok pks)
    (htracking : net'.trackingPk = net.trackingPk)
    (hcollective : net'.collectivePk = net.collectivePk ∨
      rekeyed ∧ ∃ pk : G2Point, net'.collectivePk = some pk.toBytes) :
    ∃ pks', decodeNetworkPks net' = .ok pks' := by
  rcases hcollective with hsame | ⟨-, pk, hpk⟩
  · refine ⟨pks, ?_⟩
    rw [decodeNetworkPks, hsame, htracking]
    exact hpks
  · obtain ⟨_, _, hpks⟩ := Outcome.bind_eq_ok.mp hpks
    obtain ⟨_, _, hpks⟩ := Outcome.bind_eq_ok.mp hpks
    obtain ⟨bytes, hbytes, hpks⟩ := Outcome.bind_eq_ok.mp hpks
    obtain ⟨trackingPk, hdecoded, -⟩ := Outcome.bind_eq_ok.mp hpks
    refine ⟨(pk, trackingPk), ?_⟩
    rw [decodeNetworkPks, hpk, htracking, Outcome.okOr_some, Outcome.ok_bind,
      decodeStoredPk_toBytes, Outcome.ok_bind, hbytes, Outcome.ok_bind, hdecoded]
    rfl

omit [Cipher] [Rfc3339] in
/-- A trace reads what stands. -/
theorem traceSigners_stands {rekeyed : Prop} {db' : Db} (hrecords : RecordsKept db db')
    (hstands : NetworkStands rekeyed networkId db db') {req : TraceRequest}
    {response : TraceResponse}
    (hrun : ((traceSigners networkId req).run exec db).1 = .ok response) :
    ((traceSigners networkId req).run exec db').1 = .ok response := by
  obtain ⟨-, net, key, tx, memberPks, hreads, rfl⟩ := run_traceSigners_eq_ok.mp
    (Prod.ext hrun rfl : (traceSigners networkId req).run exec db = (.ok response, _))
  obtain ⟨net', hnet', ht, htracking, hcollective⟩ := hstands.network net hreads.network
  obtain ⟨pks, hpks⟩ := hreads.networkPks
  have hreads' : TraceReads db' networkId req net' key tx memberPks := {
    network := hnet'
    trackingKey := hreads.trackingKey
    signedTx := hrecords.getSignedTx hreads.signedTx
    signature := hreads.signature
    networkPks := decodeNetworkPks_stands hpks htracking hcollective
    members := hstands.members.mapM_decodeMemberPk.trans hreads.members
    threshold := by
      rw [storedThreshold, ht]
      exact hreads.threshold }
  exact congrArg Prod.fst (run_traceSigners_eq_ok.mpr ⟨rfl, _, _, _, _, hreads', rfl⟩)

omit [Cipher] [JsonIds] [Rfc3339] in
/-- A verification is answered from the key of the network and from the request. -/
theorem run_verifySignature_eq_ok {db' : Db} {req : VerifyRequest} {response : VerifyResponse} :
    (verifySignature networkId req).run exec db = (.ok response, db') ↔
      db = db' ∧ ∃ net pk msg sig, db.getNetwork networkId = some net ∧
        decodeCollectivePk "invalid collective PK" net = .ok pk ∧
        decodeMessage (fun e => s!"invalid hex message: {e}") req.message = .ok msg ∧
        decodeSignature req.signatureHex = .ok sig ∧
        response = ⟨ctVerifyBlsSignature sig (Ats.hashMessage msg) pk, networkId⟩ := by
  constructor
  · intro h
    obtain ⟨net, _, hfetch, h⟩ := run_bind_eq_ok.mp h
    obtain ⟨hnet, rfl⟩ := run_fetchNetwork_eq_ok.mp hfetch
    obtain ⟨pk, hpk, h⟩ := run_lift_bind_eq_ok.mp h
    obtain ⟨msg, hmsg, h⟩ := run_lift_bind_eq_ok.mp h
    obtain ⟨sig, hsig, h⟩ := run_lift_bind_eq_ok.mp h
    cases h
    exact ⟨rfl, net, pk, msg, sig, hnet, hpk, hmsg, hsig, rfl⟩
  · rintro ⟨rfl, net, pk, msg, sig, hnet, hpk, hmsg, hsig, rfl⟩
    refine run_bind_eq_ok.mpr ⟨net, db, run_fetchNetwork_eq_ok.mpr ⟨hnet, rfl⟩, ?_⟩
    refine run_lift_bind_eq_ok.mpr ⟨pk, hpk, ?_⟩
    refine run_lift_bind_eq_ok.mpr ⟨msg, hmsg, ?_⟩
    exact run_lift_bind_eq_ok.mpr ⟨sig, hsig, rfl⟩

omit [Cipher] [JsonIds] [Rfc3339] in
/-- A verification reads the collective key, which stands unless it is replaced. -/
theorem verifySignature_stands {db' : Db} (hstands : NetworkStands False networkId db db')
    {req : VerifyRequest} {response : VerifyResponse}
    (hrun : ((verifySignature networkId req).run exec db).1 = .ok response) :
    ((verifySignature networkId req).run exec db').1 = .ok response := by
  obtain ⟨-, net, pk, msg, sig, hnet, hpk, hmsg, hsig, rfl⟩ := run_verifySignature_eq_ok.mp
    (Prod.ext hrun rfl : (verifySignature networkId req).run exec db = (.ok response, _))
  obtain ⟨net', hnet', -, -, hcollective⟩ := hstands.network net hnet
  have hkey : net'.collectivePk = net.collectivePk := by
    simpa only [false_and, or_false] using hcollective
  have hpk' : decodeCollectivePk "invalid collective PK" net' = .ok pk := by
    rw [decodeCollectivePk, hkey]
    exact hpk
  exact congrArg Prod.fst
    (run_verifySignature_eq_ok.mpr ⟨rfl, net', pk, msg, sig, hnet', hpk', hmsg, hsig, rfl⟩)

/-- Through lives of the server a known network stands. -/
theorem networkStands_after (lives : List Life)
    (hrekeyed : ∀ life ∈ lives, ∀ i, (life.requests i).Rekeys networkId → rekeyed)
    (hknown : (db.getNetwork networkId).isSome = true) :
    NetworkStands rekeyed networkId db (Run.after Life.apply db lives) :=
  preserves_after (J := NetworkStands rekeyed networkId db) lives hrekeyed
    (fun _ _ _ _ => trivial) (fun _ hstands => hstands.isSome hknown)
    (fun _ _ hstands hs => hstands.trans (exec_networkStands hs (hstands.isSome hknown)))
    (NetworkStands.refl _ _ _)

/-- Through lives of the server records are kept. -/
theorem recordsKept_after (lives : List Life) (db : Db) :
    RecordsKept db (Run.after Life.apply db lives) :=
  (Run.throughout_of_step (P := RecordsKept db) (fun store life h =>
    h.trans (life.recordsKept store)) (RecordsKept.refl db)).last

/-- **What stands.** Whatever the server is asked in all of its later lives, its records are
kept, a trace that was answered once is answered so ever after, and so is a verification unless
the keys of the network are generated anew. -/
theorem answers_stand (lives : List Life) (db : Db) :
    RecordsKept db (Run.after Life.apply db lives) ∧
    (∀ networkId req response, ((traceSigners networkId req).run exec db).1 = .ok response →
      ((traceSigners networkId req).run exec (Run.after Life.apply db lives)).1 = .ok response) ∧
    ∀ networkId, (∀ life ∈ lives, ∀ i, ¬ (life.requests i).Rekeys networkId) →
      ∀ req response, ((verifySignature networkId req).run exec db).1 = .ok response →
        ((verifySignature networkId req).run exec (Run.after Life.apply db lives)).1 =
          .ok response := by
  have hrecords := recordsKept_after lives db
  refine ⟨hrecords, fun networkId req response hrun => ?_,
    fun networkId hkept req response hrun => ?_⟩
  · obtain ⟨-, net, _, _, _, hreads, -⟩ := run_traceSigners_eq_ok.mp
      (Prod.ext hrun rfl : (traceSigners networkId req).run exec db = (.ok response, _))
    have hknown : (db.getNetwork networkId).isSome = true :=
      Option.isSome_iff_exists.mpr ⟨net, hreads.network⟩
    have hstands : NetworkStands True networkId db (Run.after Life.apply db lives) :=
      networkStands_after lives (fun _ _ _ _ => trivial) hknown
    exact traceSigners_stands hrecords hstands hrun
  · obtain ⟨-, net, _, _, _, hnet, -⟩ := run_verifySignature_eq_ok.mp
      (Prod.ext hrun rfl : (verifySignature networkId req).run exec db = (.ok response, _))
    have hknown : (db.getNetwork networkId).isSome = true :=
      Option.isSome_iff_exists.mpr ⟨net, hnet⟩
    exact verifySignature_stands (networkStands_after lives hkept hknown) hrun

/-- The keys of the network `a` are generated, while another one is created under its id. -/
def rekeyingLife : Life where
  bootstrapKeys := ["sigimora_AAAAAAAAAAAAAAAA"]
  draws := ⟨⟨[], "", ""⟩, fun _ => ("", "")⟩
  requests i := .authorized (some "Bearer sigimora_AAAAAAAAAAAAAAAA") ""
    (if i = 0 then .runDkg "a" fun _ _ => (3 : ℕ) else .createNetwork ⟨2, 1⟩ twoNodeDraws)
  schedule := [0, 1, 0, 1, 0, 1, 0, 1, 0, 0, 0]

/-- Whether the signature of the two nodes is verified. -/
def verifiedTwoNodes : Except (Fault ApiError) VerifyResponse × Db :=
  letI := exponentCurve
  (verifySignature "a"
    ⟨"01", (twoNodeSigned.1.toOption.map SignResponse.combinedSigHex).getD ""⟩).run
      exec twoNodeSigned.2

omit [Curve] [Cipher] [JsonIds] [Rfc3339] in
/-- The transaction of two nodes through a new key generation, and the verification of its
signature through a restart. -/
theorem answers_stand_two_nodes :
    letI := exponentCurve
    letI := plainCipher
    letI := unreadTimes
    letI := bothIds
    (∃ response, traceWithWrongKey.1 = .ok response ∧
      ((traceSigners "a" ⟨"tx", ByteString.hexEncode (Scalar.toBytes (7 : ℕ))⟩).run exec
        (Run.after Life.apply twoNodeSigned.2 [rekeyingLife, listingLife])).1 = .ok response) ∧
    ∃ response sigHex, verifiedTwoNodes.1 = .ok response ∧
      ((verifySignature "a" ⟨"01", sigHex⟩).run exec
        (Run.after Life.apply twoNodeSigned.2 [listingLife])).1 = .ok response := by
  let := exponentCurve
  let := plainCipher
  let := unreadTimes
  let := bothIds
  have htraced : traceWithWrongKey.1.isOk = true := by decide +kernel
  have hverified : verifiedTwoNodes.1.isOk = true := by decide +kernel
  obtain ⟨traced, htraced⟩ := exists_ok_of_isOk htraced
  obtain ⟨verified, hverified⟩ := exists_ok_of_isOk hverified
  have htraced : traceWithWrongKey.1 = .ok traced := by rw [htraced]
  have hverified : verifiedTwoNodes.1 = .ok verified := by rw [hverified]
  refine ⟨⟨traced, htraced, (answers_stand _ _).2.1 _ _ _ htraced⟩, verified, _, hverified,
    (answers_stand _ _).2.2 _ (fun life hlife i => ?_) _ _ hverified⟩
  rw [List.mem_singleton.mp hlife]
  rintro ⟨_, _, _, hrequest⟩
  cases hrequest

end Lives

end Sigimora.Server
