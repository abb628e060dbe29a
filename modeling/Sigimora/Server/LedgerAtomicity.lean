import Sigimora.Server.Lifecycle
import Sigimora.Server.Recording
import Sigimora.Server.Tables

/-!
# The ledger with failing statements

A request for signatures records its messages one by one. Once the first ledger
entry is inserted, everything else has to go through for the request to be all or
nothing. Ledger and signed transactions agree as long as no transaction fails to
be inserted after its ledger entry.
-/

namespace Sigimora.Server

open Handler Program

variable [Curve] {db : Db} {faults : Faults DbError} {networkId : String}

/-! ## The ledger only grows -/

omit [Curve] in
/-- No statement removes a ledger row. -/
theorem exec_ledger_length (s : Stmt) (db : Db) :
    db.ledger.length ≤ (exec s db).2.ledger.length := by
  by_cases hs : s.writes = some .ledger
  · cases s with
    | insertLedgerEntry entry =>
      simp only [exec, Db.insertLedgerEntry]
      split
      · simp
      · exact le_refl _
    | _ => cases hs
  · have hledger : (exec s db).2.ledger = db.ledger := exec_agree hs db
    rw [hledger]

omit [Curve] in
/-- No handler removes one. -/
theorem run_ledger_length {α : Type} (p : Handler α) (db : Db) (faults : Faults DbError) :
    db.ledger.length ≤ (p.run execFaulty (db, faults)).2.1.ledger.length :=
  Only.run_faulty (J := fun db' => db.ledger.length ≤ db'.ledger.length) (only_true p)
    (fun s store _ h => h.trans (exec_ledger_length s store)) (le_refl _) faults

/-! ## One request -/

section Request

variable [Cipher]

/-- The request gets to insert its first ledger entry. Before that come two reads. -/
def SigningRequest.Starts (networkId : String) (db : Db) (faults : Faults DbError)
    (request : SigningRequest) : Prop :=
  (∃ params signers, request.Prepares networkId db params signers) ∧ (∀ i < 3, faults i = none) ∧
    (foundIds (db.getNodesByNetwork networkId) request.quorum).Nodup ∧
    ∀ entry ∈ request.entries.head?, Decodes entry.1

/-- A request that does not get there ends with an error and leaves the database alone. -/
theorem SigningRequest.run_of_not_starts {request : SigningRequest}
    (h : ¬ request.Starts networkId db faults) :
    ∃ fault after, (request.handle networkId).run execFaulty (db, faults) =
      (.error fault, db, after) := by
  rcases run_handle_cases request with
    ⟨fault, faults', hstop, _⟩ | ⟨params, signers, hprepares, hclear, hgo⟩
  · exact ⟨fault, faults', hstop⟩
  obtain ⟨hsize, hquorum, hsigners, net, hnet, _⟩ := hprepares.selected
  obtain ⟨entry, entries, hentries⟩ := hprepares.exists_entries
  have hids := map_nodeId_of_signsFor hsigners
  rw [hgo, record, hentries, List.mapM_cons, Program.bind_assoc]
  by_cases hnodup : (signers.map Ats.SignerConfig.nodeId).Nodup
  · have hfirst : ¬ (Decodes entry.1 ∧ faults.drop 2 0 = none) := by
      rintro ⟨hdecodes, hnone⟩
      refine h ⟨⟨params, signers, hprepares⟩, fun i hi => ?_, hids ▸ hnodup, ?_⟩
      · obtain hi | rfl : i < 2 ∨ i = 2 := by omega
        · exact hclear i hi
        · exact hnone
      · rw [hentries]
        rintro _ ⟨⟩
        exact hdecodes
    rcases run_signBatchEntry_cases (Db.mem_networks_of_getNetwork hnet) hsize hquorum hnodup
      request.draws entry rfl with ⟨_, e, after, hstop⟩ | ⟨hgoes, _⟩ | ⟨hgoes, _⟩
    · exact ⟨_, _, run_bind_of_error hstop⟩
    · exact (hfirst hgoes).elim
    · exact (hfirst hgoes).elim
  · obtain ⟨fault, hrepeated, _⟩ := run_signBatchEntry_of_repeated hsize hquorum hnodup
      request.draws entry
    exact ⟨_, _, run_bind_of_error hrepeated⟩

/-- A request that gets there records its messages with different signers. -/
theorem SigningRequest.Starts.run_record {request : SigningRequest}
    (h : request.Starts networkId db faults) : ∃ params signers,
      networkId ∈ db.networks.map NetworkRow.id ∧ params.threshold ≤ signers.length ∧
      request.quorum ≠ [] ∧ (signers.map Ats.SignerConfig.nodeId).Nodup ∧
      (request.handle networkId).run execFaulty (db, faults) =
        (request.record networkId params signers).run execFaulty (db, faults.drop 2) := by
  obtain ⟨⟨params, signers, hprepares⟩, hclear, hnodup, _⟩ := h
  obtain ⟨hsize, hquorum, hsigners, net, hnet, _⟩ := hprepares.selected
  rw [← map_nodeId_of_signsFor hsigners] at hnodup
  exact ⟨params, signers, Db.mem_networks_of_getNetwork hnet, hsize, hquorum, hnodup,
    run_handle_of_prepares hprepares fun i hi => hclear i (by omega)⟩

omit [Cipher] in
/-- A request that starts has a first message, which decodes, and its first insertion does not fail.
-/
theorem SigningRequest.Starts.first {request : SigningRequest}
    (h : request.Starts networkId db faults) : ∃ entry entries,
      request.entries = entry :: entries ∧ Decodes entry.1 ∧ faults.drop 2 0 = none := by
  obtain ⟨⟨params, signers, hprepares⟩, hclear, _, hdecodes⟩ := h
  obtain ⟨entry, entries, hentries⟩ := hprepares.exists_entries
  exact ⟨entry, entries, hentries, hdecodes entry (by rw [hentries]; rfl), hclear 2 (by decide)⟩

/-- Once the first ledger entry is inserted, the ledger has grown. -/
theorem SigningRequest.Starts.grows {request : SigningRequest}
    (h : request.Starts networkId db faults) : db.ledger.length <
      ((request.handle networkId).run execFaulty (db, faults)).2.1.ledger.length := by
  obtain ⟨params, signers, hnet, hsize, hquorum, hnodup, hrun⟩ := h.run_record
  obtain ⟨entry, entries, hentries, hfirst⟩ := h.first
  rw [hrun, record, hentries, run_bind_pure_snd, List.mapM_cons]
  rcases run_signBatchEntry_cases hnet hsize hquorum hnodup request.draws entry rfl with
    ⟨hstop, _⟩ | ⟨_, _, e, db', after, hrun, hlength⟩ |
      ⟨_, _, done, db', msg, sig, hrun, _, _, _, hrecorded⟩
  · exact (hstop hfirst).elim
  · rw [run_bind_of_error hrun, hlength]
    exact Nat.lt_succ_self _
  · rw [run_bind_of_ok hrun]
    refine lt_of_lt_of_le ?_ (run_ledger_length _ db' _)
    rw [hrecorded.ledger, List.length_append, List.length_singleton]
    exact Nat.lt_succ_self _

/-- It returns its quorum exactly if it can be completed, and else stops with an error. -/
theorem SigningRequest.Starts.run_cases {request : SigningRequest}
    (h : request.Starts networkId db faults) :
    (Completes request.draws (db.signedTxs.map SignedTxRow.txId) (faults.drop 2) request.entries ∧
      ∃ signatures after, (request.handle networkId).run execFaulty (db, faults) =
        (.ok (request.quorum, signatures), after)) ∨
    (¬ Completes request.draws (db.signedTxs.map SignedTxRow.txId) (faults.drop 2)
        request.entries ∧
      ∃ e after, (request.handle networkId).run execFaulty (db, faults) =
        (.error (.err e), after)) := by
  obtain ⟨params, signers, hnet, hsize, hquorum, hnodup, hrun⟩ := h.run_record
  rw [hrun, record]
  rcases run_entries_cases hsize hquorum hnodup request.draws hnet with
    ⟨hcompletes, done, after, hdone⟩ | ⟨hstops, e, after, hstop⟩
  · exact Or.inl ⟨hcompletes, _, _, run_bind_of_ok hdone⟩
  · exact Or.inr ⟨hstops, e, _, run_bind_of_error hstop⟩

/-- If the request is answered with an error, nothing was recorded. -/
def SigningRequest.RecordsAtomically (networkId : String) (db : Db) (faults : Faults DbError)
    (request : SigningRequest) : Prop :=
  ∀ e after, (request.handle networkId).run execFaulty (db, faults) = (.error (.err e), after) →
    after.1.ledger = db.ledger ∧ after.1.signedTxs = db.signedTxs

/-- If the request gets to insert its first ledger entry, it can be completed. -/
def SigningRequest.RecordsThrough (networkId : String) (db : Db) (faults : Faults DbError)
    (request : SigningRequest) : Prop :=
  request.Starts networkId db faults →
    Completes request.draws (db.signedTxs.map SignedTxRow.txId) (faults.drop 2) request.entries

/-- **Signing requests.** A request for signatures is all or nothing on a database whose
statements can fail exactly if nothing goes wrong after its first ledger entry. -/
theorem SigningRequest.recordsAtomically_iff (request : SigningRequest) :
    request.RecordsAtomically networkId db faults ↔
      request.RecordsThrough networkId db faults := by
  constructor
  · intro hatomic hstarts
    rcases hstarts.run_cases with ⟨hcompletes, _⟩ | ⟨_, e, after, hrun⟩
    · exact hcompletes
    · have hgrows := hstarts.grows
      rw [hrun, (hatomic e after hrun).1] at hgrows
      exact absurd hgrows (lt_irrefl _)
  · intro hthrough e after hrun
    by_cases hstarts : request.Starts networkId db faults
    · rcases hstarts.run_cases with ⟨_, signatures, after', hok⟩ | ⟨hstops, _⟩
      · cases hok.symm.trans hrun
      · exact (hstops (hthrough hstarts)).elim
    · obtain ⟨fault, faults', hstop⟩ := run_of_not_starts hstarts
      cases hstop.symm.trans hrun
      exact ⟨rfl, rfl⟩

end Request

/-- A batch of two messages, of which the second is not hexadecimal. -/
def undecodableBatch : SigningRequest :=
  .batch ⟨["01", "zz"], [1, 2]⟩
    ⟨fun _ => 1, fun i => ⟨fun _ => ⟨1, 0⟩, if i = 0 then "tx0" else "tx1", "", ""⟩⟩

/-- The batch on the network of two nodes; no statement fails. -/
def undecodableBatchRun :
    Except (Fault ApiError) (List ParticipantId × List String) × (Db × Faults DbError) :=
  letI := exponentCurve
  letI := plainCipher
  (undecodableBatch.handle "a").run execFaulty (twoNodeKeys.2, Faults.never)

omit [Curve] in
/-- The first message has been recorded when the second one is refused. -/
theorem SigningRequest.batch_half_recorded :
    letI := exponentCurve
    letI := plainCipher
    ¬ undecodableBatch.RecordsAtomically "a" twoNodeKeys.2 Faults.never := by
  let := exponentCurve
  let := plainCipher
  intro hatomic
  have hrefused : Outcome.isErr undecodableBatchRun.1 = true := by decide +kernel
  obtain ⟨e, hrun⟩ := Outcome.exists_err_of_isErr hrefused
  obtain ⟨hledger, _⟩ := hatomic e undecodableBatchRun.2 hrun
  have hlength : undecodableBatchRun.2.1.ledger.length ≠ twoNodeKeys.2.ledger.length := by
    decide +kernel
  exact hlength (congrArg List.length hledger)

/-! ## Ledger and signed transactions -/

/-- The ledger entries and the signed transactions of every network are in one-to-one
correspondence by their ids, with equal signatures. -/
def Db.RecordsMatch (db : Db) : Prop :=
  ∀ networkId,
    ((db.ledger.filter fun row => row.networkId = networkId).map fun row =>
        (row.txId, row.signature)).Perm
      ((db.signedTxs.filter fun tx => tx.networkId = networkId).map fun tx =>
        (tx.txId, some tx.signature)) ∧
      ((db.ledger.filter fun row => row.networkId = networkId).map LedgerRow.txId).Nodup

/-- Ledger entries and signed transactions agree one by one. -/
def Db.RecordsPaired (db : Db) : Prop :=
  (db.ledger.map fun row => (row.networkId, row.txId, row.signature)) =
    db.signedTxs.map fun tx => (tx.networkId, tx.txId, some tx.signature)

omit [Curve] in
/-- Records that are paired match. -/
theorem Db.RecordsPaired.recordsMatch (h : db.RecordsPaired) : db.RecordsMatch := by
  intro networkId
  have hrows : ((db.ledger.filter fun row => row.networkId = networkId).map fun row =>
        (row.txId, row.signature)) =
      (db.signedTxs.filter fun tx => tx.networkId = networkId).map fun tx =>
        (tx.txId, some tx.signature) := by
    have hfilter := congrArg (fun keys => (keys.filter fun key => key.1 = networkId).map Prod.snd) h
    simp only [List.filter_map, List.map_map] at hfilter
    exact hfilter
  have hids : (db.ledger.filter fun row => row.networkId = networkId).map LedgerRow.txId =
      (db.signedTxs.filter fun tx => tx.networkId = networkId).map SignedTxRow.txId := by
    have hfst := congrArg (List.map Prod.fst) hrows
    simp only [List.map_map] at hfst
    exact hfst
  refine ⟨List.Perm.of_eq hrows, ?_⟩
  rw [hids]
  exact db.signedTxs_nodup.sublist (List.filter_sublist.map _)

omit [Curve] in
/-- Only the two tables count. -/
theorem Db.RecordsPaired.of_agree {db' : Db} (h : db.RecordsPaired)
    (hledger : Db.Agree .ledger db db') (htxs : Db.Agree .signedTxs db db') :
    db'.RecordsPaired := by
  have hledger : db'.ledger = db.ledger := hledger
  have htxs : db'.signedTxs = db.signedTxs := htxs
  rw [RecordsPaired, hledger, htxs]
  exact h

/-- A recorded signature keeps the records paired. -/
theorem Recorded.recordsPaired {quorum : List ParticipantId} {msg : List UInt8}
    {sig : Ats.AtsSignature} {draws : MessageDraws} {db' : Db}
    (h : Recorded networkId quorum msg sig draws db db') (hdb : db.RecordsPaired) :
    db'.RecordsPaired := by
  rw [Db.RecordsPaired, h.ledger, h.signedTxs, List.map_append, List.map_append, hdb]
  rfl

section Runs

variable [Cipher]

/-- Recording messages keeps the records paired if the transactions can be inserted. -/
theorem recordsPaired_entries {quorum : List ParticipantId} {params : Ats.NetworkPublicParams}
    {signers : List Ats.SignerConfig} (hsize : params.threshold ≤ signers.length)
    (hquorum : quorum ≠ []) (hnodup : (signers.map Ats.SignerConfig.nodeId).Nodup)
    (draws : ℕ → MessageDraws) {entries : List (String × ℕ)}
    (hnet : networkId ∈ db.networks.map NetworkRow.id) (hdb : db.RecordsPaired)
    (hpairs : PairsUp draws (db.signedTxs.map SignedTxRow.txId) faults entries) :
    ((entries.mapM (signBatchEntry networkId quorum params signers draws)).run execFaulty
      (db, faults)).2.1.RecordsPaired := by
  induction entries generalizing db faults with
  | nil => exact hdb
  | cons entry entries ih =>
    rw [List.mapM_cons]
    rcases run_signBatchEntry_cases hnet hsize hquorum hnodup draws entry rfl with
      ⟨_, e, after, hrun⟩ | ⟨hfirst, hstop, _⟩ |
        ⟨hfirst, _, done, db', msg, sig, hrun, _, _, _, hrecorded⟩
    · rw [run_bind_of_error hrun]
      exact hdb
    · exact (hstop (hpairs hfirst).1).elim
    · have hrest := (hpairs hfirst).2
      rw [← hrecorded.txIds] at hrest
      rw [run_bind_of_ok hrun, run_bind_pure_snd]
      exact ih (hrecorded.networks ▸ hnet) (hrecorded.recordsPaired hdb) hrest

/-- No transaction of the request fails to be inserted after its ledger entry. -/
def SigningRequest.RecordsPairwise (networkId : String) (db : Db) (faults : Faults DbError)
    (request : SigningRequest) : Prop :=
  request.Starts networkId db faults →
    PairsUp request.draws (db.signedTxs.map SignedTxRow.txId) (faults.drop 2) request.entries

/-- A request that records pairwise keeps them paired. -/
theorem SigningRequest.recordsPaired_handle {request : SigningRequest} (hdb : db.RecordsPaired)
    (hpairwise : request.RecordsPairwise networkId db faults) :
    ((request.handle networkId).run execFaulty (db, faults)).2.1.RecordsPaired := by
  by_cases hstarts : request.Starts networkId db faults
  · obtain ⟨params, signers, hnet, hsize, hquorum, hnodup, hrun⟩ := hstarts.run_record
    rw [hrun, record, run_bind_pure_snd]
    exact recordsPaired_entries hsize hquorum hnodup request.draws hnet hdb (hpairwise hstarts)
  · obtain ⟨fault, faults', hstop⟩ := run_of_not_starts hstarts
    rw [hstop]
    exact hdb

/-- The same of any request behind authentication. -/
def Call.RecordsPairwise (db : Db) (faults : Faults DbError) : Call → Prop
  | signMessage networkId req draws =>
    (SigningRequest.sign req draws).RecordsPairwise networkId db faults
  | batchSign networkId req draws _ =>
    (SigningRequest.batch req draws).RecordsPairwise networkId db faults
  | _ => True

variable [JsonIds] [Rfc3339] {ι : Type}

/-- So does every call. -/
theorem Call.recordsPaired_handle (user : AuthenticatedUser) {call : Call}
    (hdb : db.RecordsPaired) (hpairwise : call.RecordsPairwise db faults) :
    ((call.handle user).run execFaulty (db, faults)).2.1.RecordsPaired := by
  cases call with
  | signMessage networkId req draws =>
    have hkept := SigningRequest.recordsPaired_handle hdb hpairwise
    rwa [SigningRequest.handle, run_bind_pure_snd] at hkept
  | batchSign networkId req draws auditedAt =>
    have hkept := SigningRequest.recordsPaired_handle hdb hpairwise
    rw [SigningRequest.handle, run_bind_pure_snd] at hkept
    refine run_bind_rec (J := fun store : Db × Faults DbError => store.1.RecordsPaired) hkept
      fun response store hrun => ?_
    have haudit : WritesOnly [.auditLog] (audit "batch_sign" user.id networkId
        s!"signed {response.signatures.length} messages with quorum {req.quorum}" auditedAt) :=
      writesOnly_attempt rfl
    rw [hrun] at hkept
    rw [run_bind_pure_snd]
    exact hkept.of_agree (haudit.agree_faulty (by decide) _ _)
      (haudit.agree_faulty (by decide) _ _)
  | _ =>
    exact hdb.of_agree ((Call.writesOnly user _).agree_faulty (by simp [tables]) _ _)
      ((Call.writesOnly user _).agree_faulty (by simp [tables]) _ _)

/-- The same of an event; the request is handled in the state after authentication. -/
def ServerEvent.RecordsPairwise (db : Db) (faults : Faults DbError) : ServerEvent ι → Prop
  | .request _ (.authorized authorization usedAt action) => ∀ user after,
    (AuthenticatedUser.fromRequestParts authorization usedAt).run execFaulty (db, faults) =
      (.ok user, after) → action.RecordsPairwise after.1 after.2
  | _ => True

/-- The database after an event whose statements can fail. -/
def ServerEvent.applyFaulty (db : Db) (event : ServerEvent ι × Faults DbError) : Db :=
  match event.1 with
  | .start bootstrapKeys draws =>
    ((ensureBootstrapKey bootstrapKeys draws).run execFaulty (db, event.2)).2.1
  | .request _ req => (req.serve.run execFaulty (db, event.2)).2.1

/-- So does every event. -/
theorem ServerEvent.recordsPaired_applyFaulty {event : ServerEvent ι × Faults DbError}
    (hdb : db.RecordsPaired) (hpairwise : event.1.RecordsPairwise db event.2) :
    (applyFaulty db event).RecordsPaired := by
  obtain ⟨event, faults⟩ := event
  cases event with
  | start bootstrapKeys draws =>
    have hstart := writesOnly_ensureBootstrapKey bootstrapKeys draws
    exact hdb.of_agree (hstart.agree_faulty (by decide) _ _) (hstart.agree_faulty (by decide) _ _)
  | request who request =>
    cases request with
    | health elapsed elapsedAtEnd =>
      have hhealth := writesOnly_healthCheck elapsed elapsedAtEnd
      exact hdb.of_agree (hhealth.agree_faulty (by decide) _ _)
        (hhealth.agree_faulty (by decide) _ _)
    | authorized authorization usedAt call =>
      have hauth := writesOnly_fromRequestParts authorization usedAt
      have hkept := hdb.of_agree (hauth.agree_faulty (by decide) db faults)
        (hauth.agree_faulty (by decide) db faults)
      refine run_bind_rec (J := fun store : Db × Faults DbError => store.1.RecordsPaired) hkept
        fun user store hrun => ?_
      rw [hrun] at hkept
      exact call.recordsPaired_handle user hkept (hpairwise user store hrun)

/-- **The ledger.** A request for signatures is all or nothing exactly if nothing goes wrong
after its first ledger entry, and in runs in which no transaction fails to be inserted
after its ledger entry, the ledger and the signed transactions always match. -/
theorem signing_records_iff :
    (∀ (networkId : String) (db : Db) (faults : Faults DbError) (request : SigningRequest),
      request.RecordsAtomically networkId db faults ↔
        request.RecordsThrough networkId db faults) ∧
    ∀ events : List (ServerEvent ι × Faults DbError),
      Run.Guarded ServerEvent.applyFaulty (fun db event => event.1.RecordsPairwise db event.2)
        Db.empty events →
      Run.Throughout ServerEvent.applyFaulty Db.RecordsMatch Db.empty events := by
  refine ⟨fun _ _ _ request => request.recordsAtomically_iff, fun events hguarded => ?_⟩
  have hempty : Db.empty.RecordsPaired := rfl
  have hpaired := Run.throughout_of_guarded
    (fun db event hdb hpairwise => ServerEvent.recordsPaired_applyFaulty hdb hpairwise) hempty
    hguarded
  exact fun done hdone => (hpaired done hdone).recordsMatch

end Runs

end Sigimora.Server
