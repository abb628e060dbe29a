import Sigimora.Server.Signers

/-!
# Recording signatures with failing statements

A signer records one message after another, each with two statements. It stops at
the first message that does not decode and at the first statement that fails;
whatever it has recorded until then remains.
-/

namespace Sigimora.Server

open Handler Program

/-- The message is hexadecimal. -/
def Decodes (message : String) : Prop := ∃ msg, ByteString.hexDecode message = .ok msg

variable [Curve] {db : Db} {faults : Faults DbError} {networkId : String}
  {quorum : List ParticipantId}

/-! ## One message -/

/-- A signature is recorded in the ledger and as a signed transaction. -/
structure Recorded (networkId : String) (quorum : List ParticipantId) (msg : List UInt8)
    (sig : Ats.AtsSignature) (draws : MessageDraws) (db db' : Db) : Prop where
  networks : db'.networks = db.networks
  nodes : db'.nodes = db.nodes
  ledger : db'.ledger = db.ledger ++
    [{ ledgerRow networkId quorum msg sig draws with blockIndex := db.ledger.length + 1 }]
  signedTxs : db'.signedTxs = db.signedTxs ++ [signedTxRow networkId quorum msg sig draws]

/-- The statements that record a signature: the first fails, the second fails, or none. -/
theorem run_recordSignature_cases (hnet : networkId ∈ db.networks.map NetworkRow.id)
    (msg : List UInt8) (sig : Ats.AtsSignature) (draws : MessageDraws) {outcome}
    (hrun : (recordSignature networkId quorum msg sig draws).run execFaulty (db, faults) =
      outcome) :
    (faults 0 ≠ none ∧ ∃ e, outcome = (.error (.err e), db, faults.drop 1)) ∨
    (faults 0 = none ∧ (faults 1 ≠ none ∨ draws.txId ∈ db.signedTxs.map SignedTxRow.txId) ∧
      ∃ e db', outcome = (.error (.err e), db', faults.drop 2) ∧
        db'.ledger.length = db.ledger.length + 1) ∨
    (faults 0 = none ∧ faults 1 = none ∧ draws.txId ∉ db.signedTxs.map SignedTxRow.txId ∧
      ∃ db', outcome = (.ok (), db', faults.drop 2) ∧
        Recorded networkId quorum msg sig draws db db') := by
  subst hrun
  rw [recordSignature]
  cases hfirst : faults 0 with
  | some e => exact Or.inl ⟨nofun, _, run_query_of_fault hfirst⟩
  | none =>
  obtain ⟨middle, hledger, hnetworks, hnodes, htxs, hrows⟩ :=
    Db.insertLedgerEntry_exists db (ledgerRow networkId quorum msg sig draws) hnet
  have hlength : middle.ledger.length = db.ledger.length + 1 := by
    rw [hrows, List.length_append, List.length_singleton]
  have hexec : exec (.insertLedgerEntry (ledgerRow networkId quorum msg sig draws)) db =
      (.ok (), middle) := hledger
  rw [run_query_of_ok hfirst hexec, ← Program.bind_pure (query _)]
  cases hsecond : faults 1 with
  | some e =>
    refine Or.inr (Or.inl ⟨rfl, Or.inl nofun, .database e, middle, ?_, hlength⟩)
    rw [run_query_of_fault hsecond, Faults.drop_drop]
  | none =>
  by_cases hused : draws.txId ∈ db.signedTxs.map SignedTxRow.txId
  · refine Or.inr (Or.inl ⟨rfl, Or.inr hused,
      .database (.constraint "UNIQUE constraint failed: signed_txs.tx_id"), middle, ?_, hlength⟩)
    have hexec : exec (.insertSignedTx (signedTxRow networkId quorum msg sig draws)) middle =
        (.error (.constraint "UNIQUE constraint failed: signed_txs.tx_id"), middle) :=
      Db.insertSignedTx_of_mem (htxs ▸ hused)
    rw [run_query_of_refused hsecond hexec, Faults.drop_drop]
  · obtain ⟨final, hinsert, hnetworks', hnodes', hrows', htxs'⟩ := Db.insertSignedTx_exists middle
      (signedTxRow networkId quorum msg sig draws) (htxs ▸ hused) (hnetworks ▸ hnet)
    refine Or.inr (Or.inr ⟨rfl, rfl, hused, final, ?_, ?_⟩)
    · have hexec : exec (.insertSignedTx (signedTxRow networkId quorum msg sig draws)) middle =
          (.ok (), final) := hinsert
      rw [run_query_of_ok hsecond hexec, Faults.drop_drop]
      rfl
    · exact ⟨hnetworks'.trans hnetworks, hnodes'.trans hnodes, hrows'.trans hrows,
        htxs'.trans (by rw [htxs])⟩

section Messages

variable [Cipher] {params : Ats.NetworkPublicParams} {signers : List Ats.SignerConfig}

omit [Curve] [Cipher] in
/-- Any other message is an error. -/
theorem decodeMessage_of_not_decodes {message : String} (h : ¬ Decodes message)
    (describe : ByteString.FromHexError → String) :
    ∃ e, decodeMessage describe message = .error (.err e) := by
  unfold decodeMessage
  split
  · rename_i msg hmsg
    exact (h ⟨msg, hmsg⟩).elim
  · exact ⟨_, rfl⟩

omit [Curve] [Cipher] in
/-- A message in hexadecimal digits is decoded. -/
theorem decodeMessage_of_decodes {message : String} {msg : List UInt8}
    (h : ByteString.hexDecode message = .ok msg)
    (describe : ByteString.FromHexError → String) : decodeMessage describe message = .ok msg := by
  rw [decodeMessage, h]

/-- Different signers: the message is not recorded, only its ledger entry is, or it is. -/
theorem run_signBatchEntry_cases (hnet : networkId ∈ db.networks.map NetworkRow.id)
    (hsize : params.threshold ≤ signers.length) (hquorum : quorum ≠ [])
    (hnodup : (signers.map Ats.SignerConfig.nodeId).Nodup) (draws : ℕ → MessageDraws)
    (entry : String × ℕ) {outcome}
    (hrun : (signBatchEntry networkId quorum params signers draws entry).run execFaulty
      (db, faults) = outcome) :
    (¬ (Decodes entry.1 ∧ faults 0 = none) ∧
      ∃ e after, outcome = (.error (.err e), db, after)) ∨
    ((Decodes entry.1 ∧ faults 0 = none) ∧
      ¬ (faults 1 = none ∧ (draws entry.2).txId ∉ db.signedTxs.map SignedTxRow.txId) ∧
      ∃ e db' after, outcome = (.error (.err e), db', after) ∧
        db'.ledger.length = db.ledger.length + 1) ∨
    ((Decodes entry.1 ∧ faults 0 = none) ∧
      (faults 1 = none ∧ (draws entry.2).txId ∉ db.signedTxs.map SignedTxRow.txId) ∧
      ∃ done db' msg sig, outcome = (.ok done, db', faults.drop 2) ∧
        ByteString.hexDecode entry.1 = .ok msg ∧
        signWithQuorum params signers quorum msg (draws entry.2).tag = .ok sig ∧
        done.combinedSigHex = ByteString.hexEncode sig.combinedSig.toBytes ∧
        Recorded networkId quorum msg sig (draws entry.2) db db') := by
  subst hrun
  rw [signBatchEntry]
  by_cases hdecodes : Decodes entry.1
  · obtain ⟨msg, hmsg⟩ := id hdecodes
    obtain ⟨sig, hsign, _⟩ := signWithQuorum_of_nodup hsize hnodup hquorum msg (draws entry.2).tag
    rw [decodeMessage_of_decodes hmsg, lift_ok, ok_bind, hsign, lift_ok, ok_bind]
    rcases run_recordSignature_cases hnet msg sig (draws entry.2) rfl with
      ⟨hfirst, e, hrun⟩ | ⟨hfirst, hsecond, e, db', hrun, hlength⟩ |
        ⟨hfirst, hsecond, hfresh, db', hrun, hrecorded⟩
    · exact Or.inl ⟨fun h => hfirst h.2, e, _, run_bind_of_error hrun⟩
    · refine Or.inr (Or.inl ⟨⟨hdecodes, hfirst⟩, ?_, e, db', _, run_bind_of_error hrun, hlength⟩)
      rintro ⟨hnone, hfresh⟩
      exact hsecond.elim (fun h => h hnone) hfresh
    · exact Or.inr (Or.inr ⟨⟨hdecodes, hfirst⟩, ⟨hsecond, hfresh⟩, _, db', msg, sig,
        run_bind_of_ok hrun, hmsg, hsign, rfl, hrecorded⟩)
  · obtain ⟨e, hmsg⟩ := decodeMessage_of_not_decodes hdecodes
      fun e => s!"invalid hex message '{entry.1}': {e}"
    rw [hmsg]
    exact Or.inl ⟨fun h => hdecodes h.1, e, faults, rfl⟩

/-- A repeated signer: nothing is recorded. -/
theorem run_signBatchEntry_of_repeated (hsize : params.threshold ≤ signers.length)
    (hquorum : quorum ≠ []) (hrepeated : ¬ (signers.map Ats.SignerConfig.nodeId).Nodup)
    (draws : ℕ → MessageDraws) (entry : String × ℕ) :
    ∃ fault, (signBatchEntry networkId quorum params signers draws entry).run execFaulty
      (db, faults) = (.error fault, db, faults) ∧
      (Decodes entry.1 → ∃ message, fault = .panic message) := by
  rw [signBatchEntry]
  by_cases hdecodes : Decodes entry.1
  · obtain ⟨msg, hmsg⟩ := id hdecodes
    rw [decodeMessage_of_decodes hmsg, lift_ok, ok_bind,
      signWithQuorum_of_not_nodup hsize hrepeated hquorum]
    exact ⟨_, rfl, fun _ => ⟨_, rfl⟩⟩
  · obtain ⟨e, hmsg⟩ := decodeMessage_of_not_decodes hdecodes
      fun e => s!"invalid hex message '{entry.1}': {e}"
    rw [hmsg]
    exact ⟨.err e, rfl, fun h => (hdecodes h).elim⟩

/-! ## All messages -/

/-- The rest of the messages can be recorded: they decode, none of their statements fails,
and the ids of their transactions are not among those in use. -/
def Completes (draws : ℕ → MessageDraws) :
    List String → Faults DbError → List (String × ℕ) → Prop
  | _, _, [] => True
  | used, faults, entry :: entries =>
    (Decodes entry.1 ∧ faults 0 = none) ∧ (faults 1 = none ∧ (draws entry.2).txId ∉ used) ∧
      Completes draws (used ++ [(draws entry.2).txId]) (faults.drop 2) entries

/-- Up to the first message whose ledger entry is not inserted, the transactions of the
messages can be inserted. -/
def PairsUp (draws : ℕ → MessageDraws) :
    List String → Faults DbError → List (String × ℕ) → Prop
  | _, _, [] => True
  | used, faults, entry :: entries => Decodes entry.1 ∧ faults 0 = none →
    (faults 1 = none ∧ (draws entry.2).txId ∉ used) ∧
      PairsUp draws (used ++ [(draws entry.2).txId]) (faults.drop 2) entries

omit [Cipher] in
/-- A recorded signature adds its transaction id and no other. -/
theorem Recorded.txIds {msg : List UInt8} {sig : Ats.AtsSignature} {draws : MessageDraws}
    {db' : Db} (h : Recorded networkId quorum msg sig draws db db') :
    db'.signedTxs.map SignedTxRow.txId = db.signedTxs.map SignedTxRow.txId ++ [draws.txId] := by
  rw [h.signedTxs, List.map_append]
  rfl

/-- Recording the messages returns exactly if it can be completed, and else stops with an
error. -/
theorem run_entries_cases (hsize : params.threshold ≤ signers.length) (hquorum : quorum ≠ [])
    (hnodup : (signers.map Ats.SignerConfig.nodeId).Nodup) (draws : ℕ → MessageDraws)
    {entries : List (String × ℕ)} (hnet : networkId ∈ db.networks.map NetworkRow.id) :
    (Completes draws (db.signedTxs.map SignedTxRow.txId) faults entries ∧ ∃ done after,
      (entries.mapM (signBatchEntry networkId quorum params signers draws)).run execFaulty
        (db, faults) = (.ok done, after)) ∨
    (¬ Completes draws (db.signedTxs.map SignedTxRow.txId) faults entries ∧ ∃ e after,
      (entries.mapM (signBatchEntry networkId quorum params signers draws)).run execFaulty
        (db, faults) = (.error (.err e), after)) := by
  induction entries generalizing db faults with
  | nil => exact Or.inl ⟨trivial, [], _, rfl⟩
  | cons entry entries ih =>
    rw [List.mapM_cons, Completes]
    rcases run_signBatchEntry_cases hnet hsize hquorum hnodup draws entry rfl with
      ⟨hstop, e, after, hrun⟩ | ⟨_, hstop, e, db', after, hrun, _⟩ |
        ⟨hfirst, hsecond, done, db', msg, sig, hrun, _, _, _, hrecorded⟩
    · exact Or.inr ⟨fun h => hstop h.1, e, _, run_bind_of_error hrun⟩
    · exact Or.inr ⟨fun h => hstop h.2.1, e, _, run_bind_of_error hrun⟩
    · rw [run_bind_of_ok hrun, ← hrecorded.txIds]
      rcases ih (hrecorded.networks ▸ hnet) with ⟨hrest, rest, after, hrun'⟩ |
        ⟨hrest, e, after, hrun'⟩
      · exact Or.inl ⟨⟨hfirst, hsecond, hrest⟩, done :: rest, after, run_bind_of_ok hrun'⟩
      · exact Or.inr ⟨fun h => hrest h.2.2, e, after, run_bind_of_error hrun'⟩

end Messages

end Sigimora.Server
