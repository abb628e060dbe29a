import Sigimora.Server.AnyQuorum
import Sigimora.Server.LedgerAtomicity
import Sigimora.Server.Rotation

/-!
# What the records say

A record names the ids of the request and the epoch zero, whichever nodes have
signed and however often their shares were refreshed. So it is faithful exactly
to requests all of whose ids are found, and to shares that were never refreshed.
-/

namespace Sigimora.Server

open Handler Program

variable [Curve] {db db' : Db} {networkId : String} {quorum : List ParticipantId}

/-! ## What a request records -/

omit [Curve] in
/-- The statement reads, or records the quorum, in the ledger under the epoch zero. -/
def Stmt.Records (networkId : String) (quorum : List ParticipantId) : Stmt → Prop
  | .insertLedgerEntry entry =>
    entry.networkId = networkId ∧ entry.signers = quorumJson quorum ∧ entry.epoch = 0
  | .insertSignedTx tx => tx.quorum = quorumJson quorum
  | s => s.writes = none

omit [Curve] in
/-- A statement that writes nothing records as it should. -/
theorem Stmt.records_of_writesIn (s : Stmt) (h : s.writesIn [] = true) :
    s.Records networkId quorum := by
  cases s <;> first | rfl | cases h

/-- Records of the quorum were appended, and the nodes are as before. -/
structure Appended (networkId : String) (quorum : List ParticipantId) (db db' : Db) : Prop where
  nodes : db'.nodes = db.nodes
  ledger : ∃ rows, db'.ledger = db.ledger ++ rows ∧ ∀ row ∈ rows,
    row.networkId = networkId ∧ row.signers = quorumJson quorum ∧ row.epoch = 0
  signedTxs : ∃ txs, db'.signedTxs = db.signedTxs ++ txs ∧ ∀ tx ∈ txs,
    tx.quorum = quorumJson quorum

omit [Curve] in
/-- Nothing is appended at first. -/
theorem Appended.refl (networkId : String) (quorum : List ParticipantId) (db : Db) :
    Appended networkId quorum db db :=
  ⟨rfl, ⟨[], (List.append_nil _).symm, nofun⟩, [], (List.append_nil _).symm, nofun⟩

omit [Curve] in
/-- A record appends rows of the network, with its quorum. -/
theorem Appended.exec {s : Stmt} (hs : s.Records networkId quorum)
    (h : Appended networkId quorum db db') :
    Appended networkId quorum db (Server.exec s db').2 := by
  obtain ⟨hnodes, ⟨rows, hledger, hrows⟩, txs, hsigned, htxs⟩ := id h
  cases s with
  | insertLedgerEntry entry =>
    simp only [Server.exec, Db.insertLedgerEntry]
    split
    · refine ⟨hnodes, ⟨rows ++ [{ entry with blockIndex := db'.ledger.length + 1 }], ?_, ?_⟩,
        txs, hsigned, htxs⟩
      · exact (congrArg (· ++ [_]) hledger).trans (List.append_assoc _ _ _)
      · intro row hrow
        rcases List.mem_append.mp hrow with hrow | hrow
        · exact hrows row hrow
        · rw [List.mem_singleton.mp hrow]
          exact hs
    · exact h
  | insertSignedTx tx =>
    simp only [Server.exec, Db.insertSignedTx]
    split
    · exact h
    · split
      · refine ⟨hnodes, ⟨rows, hledger, hrows⟩, txs ++ [tx], ?_, ?_⟩
        · exact (congrArg (· ++ [tx]) hsigned).trans (List.append_assoc _ _ _)
        · intro row hrow
          rcases List.mem_append.mp hrow with hrow | hrow
          · exact htxs row hrow
          · rw [List.mem_singleton.mp hrow]
            exact hs
      · exact h
  | _ => first | exact h | cases hs

/-! ## The text of a quorum -/

omit [Curve] in
/-- Words without the separator can be read back from their concatenation. -/
theorem filter_splitOn_intercalate {words : List (List Char)} {separator : Char}
    (h : ∀ word ∈ words, word ≠ [] ∧ separator ∉ word) :
    (([separator].intercalate words).splitOn separator).filter (· ≠ []) = words := by
  cases words with
  | nil => simp
  | cons word words =>
    rw [List.splitOn_intercalate separator (fun other hother => (h other hother).2)
      (List.cons_ne_nil _ _)]
    exact List.filter_eq_self.mpr fun other hother => decide_eq_true (h other hother).1

omit [Curve] in
/-- The text of a list of ids determines the list. -/
theorem quorumJson_injective : Function.Injective quorumJson := by
  let digits (id : ParticipantId) : List Char := Nat.toDigits 10 id.toNat
  have htext (quorum : List ParticipantId) :
      (quorumJson quorum).toList = '[' :: ([','].intercalate (quorum.map digits) ++ [']']) := by
    have hdigits (id : ParticipantId) : (toString id).toList = digits id := Nat.toList_repr
    simp [quorumJson, Function.comp_def, hdigits]
  have hread (quorum : List ParticipantId) :
      (([','].intercalate (quorum.map digits)).splitOn ',').filter (· ≠ []) =
        quorum.map digits := by
    refine filter_splitOn_intercalate fun word hword => ?_
    obtain ⟨id, _, rfl⟩ := List.mem_map.mp hword
    refine ⟨Nat.toDigits_ne_nil, fun hcomma => ?_⟩
    exact absurd (Nat.isDigit_of_mem_toDigits (by decide) (by decide) hcomma) (by decide)
  have hdigits : Function.Injective digits := by
    intro id id' h
    have hvalue := congrArg (Nat.ofDigitChars 10 · 0) h
    simp only [digits, Nat.ofDigitChars_ten_toDigits] at hvalue
    exact UInt16.toNat_inj.mp hvalue
  intro quorum quorum' h
  have hchars := congrArg String.toList h
  rw [htext, htext, List.cons.injEq, List.append_left_inj] at hchars
  refine hdigits.list_map ?_
  rw [← hread quorum, hchars.2, hread]

section Requests

variable [Cipher]

/-- The statements of a request. -/
theorem SigningRequest.only_handle (networkId : String) (request : SigningRequest) :
    Only (Stmt.Records networkId request.quorum) (request.handle networkId) := by
  rw [handle_eq]
  refine (only_lift _).bind fun _ => Only.bind ?_ fun net => (only_lift _).bind fun _ =>
    Only.bind ?_ fun rows => (only_lift _).bind fun selected =>
    Only.bind (Only.mapM (fun entry => ?_) _) fun _ => only_pure _
  · exact (writesOnly_fetchNetwork networkId).mono Stmt.records_of_writesIn
  · exact (writesOnly_loadNodes networkId _).mono Stmt.records_of_writesIn
  · exact (only_lift _).bind fun _ => (only_lift _).bind fun _ =>
      Only.bind ((only_query ⟨rfl, rfl, rfl⟩).bind fun _ => only_query rfl) fun _ => only_pure _

/-- A request appends records of its quorum, however it ends. -/
theorem SigningRequest.appended_handle (networkId : String) (db : Db) (request : SigningRequest) :
    Appended networkId request.quorum db ((request.handle networkId).run exec db).2 :=
  Only.run (J := Appended networkId request.quorum db) (request.only_handle networkId)
    (fun _ _ hs hJ => hJ.exec hs) (Appended.refl networkId request.quorum db)

/-! ## Requests that are answered -/

/-- The request is answered with signatures. -/
def SigningRequest.Signs (networkId : String) (db : Db) (request : SigningRequest) : Prop :=
  request.Starts networkId db Faults.never ∧
    Completes request.draws (db.signedTxs.map SignedTxRow.txId) Faults.never request.entries

/-- The response of a request that signs. -/
theorem SigningRequest.Signs.response {request : SigningRequest}
    (h : request.Signs networkId db) :
    ∃ response db', (request.handle networkId).run exec db = (.ok response, db') := by
  obtain ⟨hstarts, hcompletes⟩ := h
  rcases hstarts.run_cases with ⟨_, signatures, after, hrun⟩ | ⟨hstops, _⟩
  · exact ⟨_, _, run_of_faulty_never hrun⟩
  · exact (hstops hcompletes).elim

/-- A request with a response has signed, and returns its quorum. -/
theorem SigningRequest.signs_of_response {request : SigningRequest} {response}
    (h : (request.handle networkId).run exec db = (.ok response, db')) :
    request.Signs networkId db ∧ response.1 = request.quorum := by
  by_cases hstarts : request.Starts networkId db Faults.never
  · rcases hstarts.run_cases with ⟨hcompletes, signatures, after, hrun⟩ | ⟨_, e, after, hrun⟩
    · cases (run_of_faulty_never hrun).symm.trans h
      exact ⟨⟨hstarts, hcompletes⟩, rfl⟩
    · cases (run_of_faulty_never hrun).symm.trans h
  · obtain ⟨fault, after, hstop⟩ := run_of_not_starts hstarts
    cases (run_of_faulty_never hstop).symm.trans h

/-! ## Faithful records -/

/-- The ids are those of the signers, each once. -/
def Names (ids : List ParticipantId) (signers : List Ats.SignerConfig) : Prop :=
  ids.Nodup ∧ ∀ id, id ∈ ids ↔ id ∈ signers.map Ats.SignerConfig.nodeId

/-- The returned and the recorded ids are those of the signers, and the recorded
epoch is the one of the rows that their shares are from. -/
structure FaithfulTo (signers : List Ats.SignerConfig) (used : List NodeRow)
    (returned : List ParticipantId) (db db' : Db) : Prop where
  returned : Names returned signers
  ledger : ∃ rows, db'.ledger = db.ledger ++ rows ∧ ∀ row ∈ rows,
    (∃ ids, row.signers = quorumJson ids ∧ Names ids signers) ∧
      ∀ node ∈ used, row.epoch = node.epoch
  signedTxs : ∃ txs, db'.signedTxs = db.signedTxs ++ txs ∧ ∀ tx ∈ txs,
    ∃ ids, tx.quorum = quorumJson ids ∧ Names ids signers

omit [Cipher] in
/-- Of whichever ids a new record is the text, these are the ids of the signers. -/
theorem FaithfulTo.names_recorded {signers : List Ats.SignerConfig} {used : List NodeRow}
    {returned : List ParticipantId} (h : FaithfulTo signers used returned db db') :
    (∀ rows, db'.ledger = db.ledger ++ rows → ∀ row ∈ rows, ∀ ids,
        row.signers = quorumJson ids → Names ids signers) ∧
      ∀ txs, db'.signedTxs = db.signedTxs ++ txs → ∀ tx ∈ txs, ∀ ids,
        tx.quorum = quorumJson ids → Names ids signers := by
  obtain ⟨-, ⟨rows, hrows, hledger⟩, txs, htxs, hsigned⟩ := h
  constructor
  · intro rows' hrows' row hrow ids hids
    cases List.append_cancel_left (hrows.symm.trans hrows')
    obtain ⟨⟨recorded, hrecorded, hnames⟩, _⟩ := hledger row hrow
    rwa [quorumJson_injective (hids.symm.trans hrecorded)]
  · intro txs' htxs' tx htx ids hids
    cases List.append_cancel_left (htxs.symm.trans htxs')
    obtain ⟨recorded, hrecorded, hnames⟩ := hsigned tx htx
    rwa [quorumJson_injective (hids.symm.trans hrecorded)]

/-- A request that is answered with signatures returns and records its signers. -/
def SigningRequest.RecordsFaithfully (networkId : String) (db : Db) (request : SigningRequest) :
    Prop :=
  ∀ response db', (request.handle networkId).run exec db = (.ok response, db') →
    ∃ params signers, request.Prepares networkId db params signers ∧
      FaithfulTo signers (quorumRows (db.getNodesByNetwork networkId) request.quorum)
        response.1 db db'

/-- If the request signs, all its ids are found, and the shares were never refreshed. -/
def SigningRequest.AllFoundUnrefreshed (networkId : String) (db : Db) (request : SigningRequest) :
    Prop :=
  request.Signs networkId db →
    (∀ id ∈ request.quorum, id ∈ (db.getNodesByNetwork networkId).map NodeRow.participant) ∧
      ∀ node ∈ quorumRows (db.getNodesByNetwork networkId) request.quorum, node.epoch = 0

/-- **Faithful records.** The response and the records of a request are faithful exactly if
it does not sign, or all its ids are found and the shares were never refreshed. -/
theorem SigningRequest.recordsFaithfully_iff (request : SigningRequest) :
    request.RecordsFaithfully networkId db ↔ request.AllFoundUnrefreshed networkId db := by
  have happended := request.appended_handle networkId db
  constructor
  · intro hfaithful hsigns
    obtain ⟨response, db', hrun⟩ := hsigns.response
    obtain ⟨params, signers, hprepares, hreturned, ⟨rows, hrows, hledger⟩, _⟩ :=
      hfaithful response db' hrun
    obtain ⟨_, _, hsigners, _⟩ := hprepares.selected
    rw [(signs_of_response hrun).2, Names, map_nodeId_of_signsFor hsigners] at hreturned
    refine ⟨fun id hid => ?_, fun node hnode => ?_⟩
    · simpa using (List.mem_filter.mp ((hreturned.2 id).mp hid)).2
    · have hgrows := hsigns.1.grows
      rw [execFaulty, run_faulty_never, hrun] at hgrows
      rw [hrun] at happended
      obtain ⟨rows', hrows', hledger'⟩ := happended.ledger
      have hsame : rows = rows' := List.append_cancel_left (hrows.symm.trans hrows')
      rw [hrows, List.length_append] at hgrows
      obtain ⟨row, hrow⟩ := List.exists_mem_of_length_pos (l := rows) (by omega)
      rw [← (hledger row hrow).2 node hnode]
      exact (hledger' row (hsame ▸ hrow)).2.2
  · intro hfound response db' hrun
    obtain ⟨hsigns, hresponse⟩ := signs_of_response hrun
    obtain ⟨hids, hepochs⟩ := hfound hsigns
    obtain ⟨⟨params, signers, hprepares⟩, _, hnodup, _⟩ := hsigns.1
    obtain ⟨_, _, hsigners, _⟩ := hprepares.selected
    have hquorum : foundIds (db.getNodesByNetwork networkId) request.quorum = request.quorum :=
      List.filter_eq_self.mpr fun id hid => by simpa using hids id hid
    have hnames : Names request.quorum signers := by
      rw [Names, map_nodeId_of_signsFor hsigners, hquorum]
      exact ⟨hquorum ▸ hnodup, fun id => Iff.rfl⟩
    rw [hrun] at happended
    obtain ⟨rows, hrows, hledger⟩ := happended.ledger
    obtain ⟨txs, htxs, hsigned⟩ := happended.signedTxs
    refine ⟨params, signers, hprepares, ?_, ⟨rows, hrows, fun row hrow => ?_⟩, txs, htxs,
      fun tx htx => ⟨request.quorum, hsigned tx htx, hnames⟩⟩
    · rw [hresponse]
      exact hnames
    · obtain ⟨_, hrecorded, hepoch⟩ := hledger row hrow
      refine ⟨⟨request.quorum, hrecorded, hnames⟩, fun node hnode => ?_⟩
      rw [hepoch, hepochs node hnode]

end Requests

/-! ## Refreshes -/

omit [Curve] in
/-- Rewriting in two steps. -/
theorem rewriteNode_append (stmts more : List Stmt) (row : NodeRow) :
    rewriteNode (stmts ++ more) row = rewriteNode more (rewriteNode stmts row) :=
  List.foldl_append

omit [Curve] in
/-- The updates of one row: the row keeps its keys, and has the new epoch if it is meant. -/
theorem rewriteNode_refreshUpdates (networkId : String) (epoch : ℕ) (entry : NodeRow × Scalar)
    (row : NodeRow) :
    (rewriteNode (refreshUpdates networkId epoch entry) row).id = row.id ∧
      (rewriteNode (refreshUpdates networkId epoch entry) row).networkId = row.networkId ∧
      (rewriteNode (refreshUpdates networkId epoch entry) row).epoch =
        if row.id = entry.1.id then epoch else row.epoch := by
  simp only [rewriteNode, refreshUpdates, List.foldl_cons, List.foldl_nil, Stmt.onNode]
  split <;> split <;> simp_all

omit [Curve] in
/-- All updates of a refresh give the new epoch to the rows that they name. -/
theorem rewriteNode_refresh (networkId : String) (epoch : ℕ) (entries : List (NodeRow × Scalar))
    (row : NodeRow) :
    (rewriteNode (entries.flatMap (refreshUpdates networkId epoch)) row).id = row.id ∧
      (rewriteNode (entries.flatMap (refreshUpdates networkId epoch)) row).networkId =
        row.networkId ∧
      (rewriteNode (entries.flatMap (refreshUpdates networkId epoch)) row).epoch =
        if row.id ∈ (entries.map Prod.fst).map NodeRow.id then epoch else row.epoch := by
  induction entries generalizing row with
  | nil => exact ⟨rfl, rfl, rfl⟩
  | cons entry entries ih =>
    rw [List.flatMap_cons, rewriteNode_append, List.map_cons, List.map_cons]
    obtain ⟨hid, hnetwork, hepoch⟩ := rewriteNode_refreshUpdates networkId epoch entry row
    obtain ⟨hid', hnetwork', hepoch'⟩ := ih (rewriteNode (refreshUpdates networkId epoch entry) row)
    refine ⟨hid'.trans hid, hnetwork'.trans hnetwork, ?_⟩
    rw [hepoch', hid, hepoch]
    by_cases hrow : row.id = entry.1.id
    · rw [if_pos hrow, if_pos (List.mem_cons.mpr (Or.inl hrow)), ite_self]
    · simp only [List.mem_cons, hrow, false_or, if_false]

/-- A refresh is refused, or gives all rows of the network the epoch after that of the first. -/
theorem run_refresh_cases (networkId : String) (coins : PartyDraws) (db : Db) :
    (∃ fault, ((KeyRequest.refresh coins).handle networkId).run exec db = (.error fault, db)) ∨
    ∃ db' f, ((KeyRequest.refresh coins).handle networkId).run exec db = (.ok (), db') ∧
      db'.ledger = db.ledger ∧ db'.nodes = db.nodes.map f ∧
      ∀ row ∈ db.nodes, (f row).networkId = row.networkId ∧ (f row).epoch =
        if row.networkId = networkId then
          ((db.getNodesByNetwork networkId).head?.map NodeRow.epoch).getD 0 + 1
        else row.epoch := by
  have hcases : (∃ fault after, ((KeyRequest.refresh coins).handle networkId).run execFaulty
      (db, Faults.never) = (.error fault, db, after)) ∨ _ := KeyRequest.run_handle_cases _
  rcases hcases with ⟨fault, faults, hstop⟩ | ⟨stmts, hplans, _, hgo⟩
  · exact Or.inl ⟨fault, run_of_faulty_never hstop⟩
  obtain ⟨net, _, _, _, hupdates⟩ := hplans
  have hkinds := (KeyRequest.updates_kinds hupdates).1
  obtain ⟨keys, hkeys, hupdates⟩ := Outcome.bind_eq_ok.mp hupdates
  obtain ⟨_, _, hupdates⟩ := Outcome.bind_eq_ok.mp hupdates
  cases hupdates
  have hrun := run_of_faulty_never (hgo.trans (run_updates_of_clear hkinds fun _ _ => rfl))
  have hledger : WritesOnly [.nodes] ((KeyRequest.refresh coins).handle networkId) :=
    (writesOnly_refreshNetwork networkId coins).bind fun _ => only_pure _
  refine Or.inr ⟨_, _, hrun, ?_, (execAll_nodeUpdates (isNodeUpdate_refreshUpdates _ _ _) db).2,
    fun row hrow => ?_⟩
  · have hagree : Db.Agree .ledger db _ := hledger.agree (by decide) db
    rw [hrun] at hagree
    exact hagree
  · obtain ⟨_, hnetwork, hepoch⟩ := rewriteNode_refresh networkId
      (((db.getNodesByNetwork networkId).head?.map NodeRow.epoch).getD 0 + 1)
      ((db.getNodesByNetwork networkId).zip keys.2) row
    rw [List.map_fst_zip (length_refreshedKeys hkeys).ge] at hepoch
    exact ⟨hnetwork, hepoch.trans (if_congr (Db.id_mem_getNodesByNetwork hrow) rfl rfl)⟩

/-! ## Signing and refreshing -/

/-- A request that signs with the shares of a network, or refreshes them. -/
inductive KeyUse
  | signing (networkId : String) (request : SigningRequest)
  | refresh (networkId : String) (coins : PartyDraws)

/-- The database, how often the shares of each network were refreshed, and how often
they had been refreshed when each ledger entry was recorded. -/
structure Tally where
  db : Db
  refreshes : String → ℕ
  due : List ℕ

namespace Tally

/-- Execute a request. -/
def step [Cipher] (s : Tally) : KeyUse → Tally
  | .signing networkId request =>
    let db' := ((request.handle networkId).run exec s.db).2
    { db := db'
      refreshes := s.refreshes
      due := s.due ++ (db'.ledger.drop s.db.ledger.length).map fun row =>
        s.refreshes row.networkId }
  | .refresh networkId coins =>
    match ((KeyRequest.refresh coins).handle networkId).run exec s.db with
    | (.ok _, db') =>
      { db := db'
        refreshes := Function.update s.refreshes networkId (s.refreshes networkId + 1)
        due := s.due }
    | (.error _, db') => { s with db := db' }

/-- The epochs of the nodes and of the ledger tell the refreshes, and those of a network
never decrease along the ledger. -/
structure Faithful (s : Tally) : Prop where
  nodes : ∀ row ∈ s.db.nodes, row.epoch = s.refreshes row.networkId
  ledger : s.db.ledger.map LedgerRow.epoch = s.due
  bounded : ∀ row ∈ s.db.ledger, row.epoch ≤ s.refreshes row.networkId
  monotone : s.db.ledger.Pairwise fun a b => a.networkId = b.networkId → a.epoch ≤ b.epoch

end Tally

/-- If the request gets to record a message, the shares of its signers were never refreshed. -/
def KeyUse.SignsUnrefreshed (s : Tally) : KeyUse → Prop
  | .signing networkId request => request.Starts networkId s.db Faults.never →
    ∀ node ∈ quorumRows (s.db.getNodesByNetwork networkId) request.quorum, node.epoch = 0
  | .refresh _ _ => True

omit [Curve] in
/-- The epoch that is shown is the number of refreshes that were counted. -/
theorem Tally.Faithful.epoch_head {s : Tally} (hs : s.Faithful) {row : NodeRow}
    (hrow : row ∈ s.db.nodes) (hown : row.networkId = networkId) :
    ((s.db.getNodesByNetwork networkId).head?.map NodeRow.epoch).getD 0 =
      s.refreshes networkId := by
  have hmem : row ∈ s.db.getNodesByNetwork networkId := Db.mem_getNodesByNetwork.mpr ⟨hrow, hown⟩
  obtain ⟨first, rest, hrows⟩ := List.exists_cons_of_ne_nil (List.ne_nil_of_mem hmem)
  have hfirst : first ∈ s.db.getNodesByNetwork networkId := hrows ▸ List.mem_cons_self
  obtain ⟨hfirst, hnetwork⟩ := Db.mem_getNodesByNetwork.mp hfirst
  rw [hrows, List.head?_cons, Option.map_some, Option.getD_some, hs.nodes first hfirst, hnetwork]

/-- A refresh counts. -/
theorem Tally.Faithful.refresh [Cipher] {s : Tally} (hs : s.Faithful) (networkId : String)
    (coins : PartyDraws) : (s.step (.refresh networkId coins)).Faithful := by
  rcases run_refresh_cases networkId coins s.db with
    ⟨fault, hrun⟩ | ⟨db', f, hrun, hledger, hnodes, hf⟩
  · have hstep : s.step (.refresh networkId coins) = s := by rw [step, hrun]
    rwa [hstep]
  have hstep : s.step (.refresh networkId coins) =
      { db := db'
        refreshes := Function.update s.refreshes networkId (s.refreshes networkId + 1)
        due := s.due } := by rw [step, hrun]
  rw [hstep]
  refine ⟨?_, ?_, ?_, ?_⟩
  · intro row' hrow'
    obtain ⟨row, hrow, rfl⟩ := List.mem_map.mp (hnodes ▸ hrow')
    obtain ⟨hnetwork, hepoch⟩ := hf row hrow
    rw [hepoch, hnetwork]
    dsimp only
    by_cases hown : row.networkId = networkId
    · rw [if_pos hown, hs.epoch_head hrow hown, hown, Function.update_self]
    · rw [if_neg hown, Function.update_of_ne hown]
      exact hs.nodes row hrow
  · exact (congrArg _ hledger).trans hs.ledger
  · intro row hrow
    have hbound := hs.bounded row (hledger ▸ hrow)
    dsimp only
    by_cases hown : row.networkId = networkId
    · rw [hown] at hbound
      rw [hown, Function.update_self]
      exact hbound.trans (Nat.le_succ _)
    · rwa [Function.update_of_ne hown]
  · have hmonotone := hs.monotone
    rwa [← hledger] at hmonotone

omit [Curve] in
/-- The shares that a request uses were refreshed as often as its network tells. -/
theorem Tally.Faithful.epoch_used {s : Tally} (hs : s.Faithful) {node : NodeRow}
    (hnode : node ∈ quorumRows (s.db.getNodesByNetwork networkId) quorum) :
    node.epoch = s.refreshes networkId := by
  obtain ⟨qid, _, hfind⟩ := List.mem_filterMap.mp hnode
  obtain ⟨hmem, hnetwork⟩ := Db.mem_getNodesByNetwork.mp (List.mem_of_find?_eq_some hfind)
  rw [hs.nodes node hmem, hnetwork]

/-- A request that gets to record uses shares. -/
theorem SigningRequest.Starts.exists_used {request : SigningRequest}
    (h : request.Starts networkId db Faults.never) :
    ∃ node, node ∈ quorumRows (db.getNodesByNetwork networkId) request.quorum := by
  obtain ⟨⟨params, signers, hprepares⟩, _⟩ := h
  obtain ⟨hsize, _, hsigners, net, _, hthreshold, _⟩ := hprepares.selected
  refine List.exists_mem_of_length_pos ?_
  rw [← hsigners.length_eq]
  omega

/-- If rows are recorded, the network of the request was never refreshed. -/
theorem Tally.Faithful.refreshes_eq_zero [Cipher] {s : Tally} (hs : s.Faithful)
    {request : SigningRequest}
    (hunrefreshed : (KeyUse.signing networkId request).SignsUnrefreshed s) {rows : List LedgerRow}
    (hledger : ((request.handle networkId).run exec s.db).2.ledger = s.db.ledger ++ rows) :
    ∀ row ∈ rows, s.refreshes networkId = 0 := by
  intro row hrow
  by_contra hrefreshed
  have hstops : ¬ request.Starts networkId s.db Faults.never := fun hstarts => by
    obtain ⟨node, hnode⟩ := hstarts.exists_used
    exact hrefreshed ((hs.epoch_used hnode).symm.trans (hunrefreshed hstarts node hnode))
  obtain ⟨fault, after, hstop⟩ := SigningRequest.run_of_not_starts hstops
  rw [run_of_faulty_never hstop, List.self_eq_append_right] at hledger
  rw [hledger] at hrow
  cases hrow

omit [Curve] in
/-- Rows of the epoch zero are faithful for a network that was never refreshed. -/
theorem Tally.Faithful.append {s : Tally} (hs : s.Faithful) {rows : List LedgerRow}
    (hnodes : db'.nodes = s.db.nodes) (hledger : db'.ledger = s.db.ledger ++ rows)
    (hrows : ∀ row ∈ rows, row.networkId = networkId ∧ row.epoch = 0)
    (hcount : ∀ row ∈ rows, s.refreshes networkId = 0) :
    Tally.Faithful ⟨db', s.refreshes,
      s.due ++ rows.map fun row => s.refreshes row.networkId⟩ := by
  refine ⟨?_, ?_, ?_, ?_⟩
  · intro row hrow
    exact hs.nodes row (hnodes ▸ hrow)
  · rw [hledger, List.map_append, hs.ledger]
    refine congrArg (s.due ++ ·) (List.map_congr_left fun row hrow => ?_)
    obtain ⟨hnetwork, hzero⟩ := hrows row hrow
    rw [hzero, hnetwork, hcount row hrow]
  · intro row hrow
    rcases List.mem_append.mp (hledger ▸ hrow) with hrow | hrow
    · exact hs.bounded row hrow
    · rw [(hrows row hrow).2]
      exact Nat.zero_le _
  · rw [hledger]
    refine List.pairwise_append.mpr ⟨hs.monotone, ?_, ?_⟩
    · refine List.pairwise_iff_forall_sublist.mpr fun {a b} hab _ => ?_
      rw [(hrows a (hab.subset (by simp))).2]
      exact Nat.zero_le _
    · intro a ha b hb hsame
      have hbound := hs.bounded a ha
      rw [hsame, (hrows b hb).1, hcount b hb] at hbound
      exact hbound.trans (Nat.zero_le _)

/-- Signing keeps the epochs faithful exactly with shares that were never refreshed. -/
theorem Tally.Faithful.signing_iff [Cipher] {s : Tally} (hs : s.Faithful) (networkId : String)
    (request : SigningRequest) :
    (s.step (.signing networkId request)).Faithful ↔
      (KeyUse.signing networkId request).SignsUnrefreshed s := by
  obtain ⟨hnodes, ⟨rows, hledger, hrows⟩, _⟩ := request.appended_handle networkId s.db
  have hstep : s.step (.signing networkId request) =
      { db := ((request.handle networkId).run exec s.db).2
        refreshes := s.refreshes
        due := s.due ++ rows.map fun row => s.refreshes row.networkId } := by
    rw [step, hledger, List.drop_left]
  rw [hstep]
  constructor
  · intro hafter hstarts node hnode
    have hgrows := hstarts.grows
    rw [execFaulty, run_faulty_never, hledger, List.length_append] at hgrows
    obtain ⟨row, hrow⟩ := List.exists_mem_of_length_pos (l := rows) (by omega)
    have hepochs := hafter.ledger
    rw [hledger, List.map_append, hs.ledger] at hepochs
    have hrecorded := List.map_inj_left.mp (List.append_cancel_left hepochs) row hrow
    obtain ⟨hnetwork, _, hzero⟩ := hrows row hrow
    rw [hs.epoch_used hnode, ← hnetwork, ← hrecorded, hzero]
  · intro hunrefreshed
    exact hs.append hnodes hledger (fun row hrow => ⟨(hrows row hrow).1, (hrows row hrow).2.2⟩)
      (hs.refreshes_eq_zero hunrefreshed hledger)

/-- **Faithful ledgers.** The response and the records of every request are faithful
exactly if it does not sign, or all its ids are found and the shares were never refreshed;
and along a run of signings and refreshes the epochs of the ledger never decrease and
tell the refreshes exactly if no request records signatures of refreshed shares. -/
theorem records_faithful_iff [Cipher] :
    (∀ (networkId : String) (db : Db) (request : SigningRequest),
      request.RecordsFaithfully networkId db ↔ request.AllFoundUnrefreshed networkId db) ∧
    ∀ (s : Tally) (uses : List KeyUse), s.Faithful →
      (Run.Throughout Tally.step Tally.Faithful s uses ↔
        Run.Guarded Tally.step (fun s use => use.SignsUnrefreshed s) s uses) := by
  refine ⟨fun _ _ request => request.recordsFaithfully_iff, fun s uses hs => ?_⟩
  refine Run.throughout_iff_guarded (fun s use hs => ?_) hs
  cases use with
  | signing networkId request => exact hs.signing_iff networkId request
  | refresh networkId coins => exact iff_of_true (hs.refresh networkId coins) trivial

/-- The network of two nodes after its key generation. -/
def freshTally : Tally :=
  letI := exponentCurve
  ⟨(((KeyRequest.dkg fun _ _ => 1).handle "a").run exec twoNodeCreation.2).2, fun _ => 0, []⟩

omit [Curve] in
/-- The tally of a new network is faithful. -/
theorem faithful_freshTally : freshTally.Faithful := by
  have hledger : freshTally.db.ledger = [] := List.eq_nil_of_length_eq_zero (by decide +kernel)
  refine ⟨by decide +kernel, ?_, ?_, ?_⟩
  · rw [hledger]
    rfl
  · rw [hledger]
    nofun
  · rw [hledger]
    exact List.Pairwise.nil

def signBoth : KeyUse := .signing "a" (.sign (signWith [2, 1]) onceDraws)

def refreshBoth : KeyUse := .refresh "a" fun _ _ => Scalar.ofId 2

omit [Curve] in
/-- The nodes sign before their shares are refreshed. -/
theorem records_faithful_two_nodes :
    letI := exponentCurve
    letI := plainCipher
    Run.Throughout Tally.step Tally.Faithful freshTally [signBoth, refreshBoth] := by
  let := exponentCurve
  let := plainCipher
  refine (records_faithful_iff.2 freshTally _ faithful_freshTally).mpr ?_
  refine Run.guarded_cons.mpr ⟨fun _ => by decide +kernel, ?_⟩
  exact Run.guarded_cons.mpr ⟨trivial, Run.guarded_nil⟩

/-- The node 9 does not exist. -/
def absentSigner : SigningRequest := .sign (signWith [2, 9, 1]) onceDraws

def absentRun : Except (Fault ApiError) (List ParticipantId × List String) × Db :=
  letI := exponentCurve
  letI := plainCipher
  (absentSigner.handle "a").run exec freshTally.db

def refreshedTally : Tally :=
  letI := exponentCurve
  letI := plainCipher
  Run.after Tally.step freshTally [refreshBoth, signBoth]

omit [Curve] in
/-- A node that does not exist is returned as a signer, and after a refresh the signature
is recorded under the epoch zero. -/
theorem records_unfaithful :
    letI := exponentCurve
    letI := plainCipher
    ¬ absentSigner.RecordsFaithfully "a" freshTally.db ∧
      ¬ Run.Throughout Tally.step Tally.Faithful freshTally [refreshBoth, signBoth] := by
  let := exponentCurve
  let := plainCipher
  constructor
  · intro hfaithful
    have hanswered : absentRun.1.isOk = true := by decide +kernel
    obtain ⟨response, hrun⟩ := exists_ok_of_isOk hanswered
    obtain ⟨params, signers, hprepares, hreturned, _⟩ := hfaithful response absentRun.2 hrun
    obtain ⟨_, _, hsigners, _⟩ := hprepares.selected
    rw [(SigningRequest.signs_of_response hrun).2, Names, map_nodeId_of_signsFor hsigners]
      at hreturned
    have habsent : (9 : ParticipantId) ∉
        foundIds (freshTally.db.getNodesByNetwork "a") absentSigner.quorum := by decide +kernel
    exact habsent ((hreturned.2 9).mp (by decide))
  · intro hfaithful
    have hepochs : refreshedTally.db.ledger.map LedgerRow.epoch = refreshedTally.due :=
      hfaithful.last.ledger
    have hdiffer : refreshedTally.db.ledger.map LedgerRow.epoch ≠ refreshedTally.due := by
      decide +kernel
    exact hdiffer hepochs

end Sigimora.Server
