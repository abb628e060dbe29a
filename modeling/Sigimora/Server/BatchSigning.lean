import Sigimora.Server.LedgerAtomicity

/-!
# Batches and single messages

The two signing handlers give every node a fresh long-term key, and draw the
randomness of the tags anew for each message. A signature depends on neither of
them. So a batch is answered exactly when each of its messages is answered alone,
and it returns and records the same, up to the ids, the numbers and the times.
-/

namespace Sigimora.Server

open Handler Program

variable [Curve] {db db' : Db} {networkId : String}

/-! ## Long-term keys -/

/-- Whether the rows can be loaded does not depend on the long-term keys. -/
theorem buildParams_exists_of_ok {net : NetworkRow} {rows : List NodeRow} {ltSks : ℕ → Scalar}
    {params : Ats.NetworkPublicParams} {members : List Member}
    (h : buildParams net rows ltSks = .ok (params, members)) (ltSks' : ℕ → Scalar) :
    ∃ params' members', buildParams net rows ltSks' = .ok (params', members') := by
  obtain ⟨collectivePk, hcollective, h⟩ := Outcome.bind_eq_ok.mp h
  obtain ⟨trackingPk, htracking, h⟩ := Outcome.bind_eq_ok.mp h
  obtain ⟨loaded, hload, _⟩ := Outcome.bind_eq_ok.mp h
  obtain ⟨members', hmembers', _⟩ := Outcome.mapM_exists rows.zipIdx
    (f := fun entry => loadMember entry.1 (ltSks' entry.2)) (P := fun _ _ => True) (by
      intro entry hentry
      obtain ⟨m, hm⟩ := Outcome.exists_of_mapM_eq_ok hload hentry
      obtain ⟨pk, hpk, hm⟩ := Outcome.bind_eq_ok.mp hm
      obtain ⟨share, hshare, _⟩ := Outcome.bind_eq_ok.mp hm
      rw [loadMember, hpk, Outcome.ok_bind, hshare, Outcome.ok_bind]
      exact ⟨_, rfl, trivial⟩)
  rw [buildParams, hcollective, Outcome.ok_bind, htracking, Outcome.ok_bind, hmembers',
    Outcome.ok_bind]
  exact ⟨_, _, rfl⟩

namespace SigningRequest

/-- Whether signers are selected depends on the requested ids only. -/
theorem select_exists_of_ok {net : NetworkRow} {rows : List NodeRow}
    {request request' : SigningRequest} (hquorum : request'.quorum = request.quorum)
    {params : Ats.NetworkPublicParams} {signers : List Ats.SignerConfig}
    (h : request.select net rows = .ok (params, signers)) :
    ∃ params' signers', request'.select net rows = .ok (params', signers') := by
  obtain ⟨⟨built, members⟩, hbuild, h⟩ := Outcome.bind_eq_ok.mp h
  obtain ⟨found, hfound, _⟩ := Outcome.bind_eq_ok.mp h
  obtain ⟨params', members', hbuild'⟩ := buildParams_exists_of_ok hbuild request'.ltSks
  obtain ⟨hsize, hsigners⟩ := selectQuorum_signsFor (buildParams_loads hbuild).2 hfound
  have hsigners' := filterMap_signsFor (buildParams_loads hbuild').2 request.quorum
  obtain ⟨signers', hselect⟩ :
      ∃ signers', selectQuorum net.t request'.quorum members' = .ok signers' := by
    rw [hquorum]
    exact ⟨_, if_neg (by rw [hsigners'.length_eq, ← hsigners.length_eq]; omega)⟩
  exact ⟨params', signers', by rw [select, hbuild', Outcome.ok_bind, hselect]; rfl⟩

end SigningRequest

/-- The point that holders of these key shares sign the message with together. -/
def combinedPoint (shares : List (ParticipantId × Scalar)) (msg : List UInt8) : G1Point :=
  Shamir.weightedSum (shares.map fun share => share.2 • Ats.hashMessage msg)
    (Ats.quorumWeights (shares.map Prod.fst))

/-- The ids and the key shares of the signers. -/
def signerShares (signers : List Ats.SignerConfig) : List (ParticipantId × Scalar) :=
  signers.map fun s => (s.nodeId, s.dkgShare)

/-- The rows determine the ids and the shares. -/
theorem signerShares_unique {rows : List NodeRow} {signers signers' : List Ats.SignerConfig}
    (h : List.Forall₂ SignsFor signers rows) (h' : List.Forall₂ SignsFor signers' rows) :
    signerShares signers = signerShares signers' := by
  induction h generalizing signers' with
  | nil => rw [List.forall₂_nil_right_iff.mp h']
  | cons hs _ ih =>
    obtain ⟨s', rest', hs', hrest', rfl⟩ := List.forall₂_cons_right_iff.mp h'
    have hshare := Except.ok.inj (hs.2.symm.trans hs'.2)
    rw [signerShares, signerShares, List.map_cons, List.map_cons, hs.1, hs'.1, hshare]
    exact congrArg _ (ih hrest')

/-- The signature depends on the ids and the shares of the signers only. -/
theorem combinedSig_eq [Cipher] {params : Ats.NetworkPublicParams}
    {signers : List Ats.SignerConfig} {quorum : List ParticipantId} {msg : List UInt8}
    {tagDraws : ℕ → Ats.TagCoins} {sig : Ats.AtsSignature}
    (hsize : params.threshold ≤ signers.length)
    (hnodup : (signers.map Ats.SignerConfig.nodeId).Nodup) (hquorum : quorum ≠ [])
    (h : signWithQuorum params signers quorum msg tagDraws = .ok sig) :
    sig.combinedSig = combinedPoint (signerShares signers) msg := by
  obtain ⟨first, rest, rfl⟩ := List.exists_cons_of_ne_nil hquorum
  have hids := map_nodeId_signPartial signers msg params.trackingPk tagDraws
  have haggregate := Ats.aggregate_eq_ok (signers.zipIdx.map fun entry =>
      Ats.signPartial entry.1 msg params.trackingPk (tagDraws entry.2))
    (by rw [List.length_map, List.length_zipIdx]; exact hsize) (by rw [hids]; exact hnodup) 0 first
  have hsigmas : (signers.zipIdx.map fun entry =>
      Ats.signPartial entry.1 msg params.trackingPk (tagDraws entry.2)).map
        Ats.PartialSignature.sigma =
      (signerShares signers).map fun share => share.2 • Ats.hashMessage msg := by
    conv_rhs => rw [signerShares, ← List.zipIdx_map_fst 0 signers]
    rw [List.map_map, List.map_map, List.map_map]
    rfl
  have hfirst : (signerShares signers).map Prod.fst = signers.map Ats.SignerConfig.nodeId :=
    List.map_map
  have hsign : signWithQuorum params signers (first :: rest) msg tagDraws = .ok _ :=
    congrArg (Outcome.mapErr ApiError.ofAts) haggregate
  cases h.symm.trans hsign
  simp only [combinedPoint, hids, hsigmas, hfirst]

/-! ## What a request makes -/

/-- What a request returns and records for one message. -/
structure MadeSignature where
  combinedSigHex : String
  messageHashHex : String
  ledger : LedgerRow
  signedTx : SignedTxRow

/-- All of it but the id of the transaction, the number of the block and the times. -/
def MadeSignature.content (made : MadeSignature) : MadeSignature :=
  { made with
    ledger := { made.ledger with blockIndex := 0, txId := "", createdAt := "" }
    signedTx := { made.signedTx with txId := "", createdAt := "" } }

/-- The request returned these pairs of a signature and a hash, and appended these records. -/
structure Makes (db db' : Db) (returned : List (String × String)) (made : List MadeSignature) :
    Prop where
  returned : returned = made.map fun m => (m.combinedSigHex, m.messageHashHex)
  ledger : db'.ledger = db.ledger ++ made.map MadeSignature.ledger
  signedTxs : db'.signedTxs = db.signedTxs ++ made.map MadeSignature.signedTx

omit [Curve] in
/-- A request after another one. -/
theorem Makes.append {next : Db} {returned returned' : List (String × String)}
    {made made' : List MadeSignature} (h : Makes db next returned made)
    (h' : Makes next db' returned' made') :
    Makes db db' (returned ++ returned') (made ++ made') := by
  refine ⟨?_, ?_, ?_⟩
  · rw [h.returned, h'.returned, List.map_append]
  · rw [h'.ledger, h.ledger, List.map_append, List.append_assoc]
  · rw [h'.signedTxs, h.signedTxs, List.map_append, List.append_assoc]

def BatchSignEntry.returned (entry : BatchSignEntry) : String × String :=
  (entry.combinedSigHex, entry.messageHashHex)

def SignResponse.returned (response : SignResponse) : String × String :=
  (response.combinedSigHex, response.messageHashHex)

/-- What holders of these key shares make of a message, if it is hexadecimal. -/
def contentOf (networkId : String) (quorum : List ParticipantId)
    (shares : List (ParticipantId × Scalar)) (message : String) : Option MadeSignature :=
  match ByteString.hexDecode message with
  | .ok msg =>
    let point := (combinedPoint shares msg).toBytes
    some {
      combinedSigHex := ByteString.hexEncode point
      messageHashHex := ByteString.hexEncode (Ats.hashMessage msg).toBytes
      ledger := {
        blockIndex := 0
        txId := ""
        networkId := networkId
        messageHash := (Ats.hashMessage msg).toBytes
        signature := some point
        signers := quorumJson quorum
        epoch := 0
        createdAt := "" }
      signedTx := {
        txId := ""
        networkId := networkId
        message := msg
        signature := point
        quorum := quorumJson quorum
        createdAt := "" } }
  | .error _ => none

/-- The ids that are drawn for the messages are new, and different from each other. -/
def FreshIds (db : Db) (draws : ℕ → MessageDraws) (entries : List (String × ℕ)) : Prop :=
  (db.signedTxs.map SignedTxRow.txId ++ entries.map fun entry => (draws entry.2).txId).Nodup

omit [Curve] in
/-- The ids are fresh if the first is and the others are after it. -/
theorem FreshIds.cons_iff {draws : ℕ → MessageDraws} {entry : String × ℕ}
    {entries : List (String × ℕ)} :
    FreshIds db draws (entry :: entries) ↔
      ((db.signedTxs.map SignedTxRow.txId ++ [(draws entry.2).txId]) ++
        entries.map fun entry => (draws entry.2).txId).Nodup := by
  rw [FreshIds, List.map_cons, List.append_assoc, List.singleton_append]

omit [Curve] in
/-- Every single id is fresh. -/
theorem FreshIds.of_mem {draws : ℕ → MessageDraws} {entries : List (String × ℕ)}
    (h : FreshIds db draws entries) {entry : String × ℕ} (hentry : entry ∈ entries) :
    (draws entry.2).txId ∉ db.signedTxs.map SignedTxRow.txId := by
  intro hused
  exact (List.nodup_append.mp h).2.2 _ hused _ (List.mem_map_of_mem hentry) rfl

section Recording

variable [Cipher] {quorum : List ParticipantId} {params : Ats.NetworkPublicParams}
  {signers : List Ats.SignerConfig}

/-- One message is signed and recorded. -/
theorem run_signBatchEntry_makes (hnet : networkId ∈ db.networks.map NetworkRow.id)
    (hsize : params.threshold ≤ signers.length) (hquorum : quorum ≠ [])
    (hnodup : (signers.map Ats.SignerConfig.nodeId).Nodup) (draws : ℕ → MessageDraws)
    (entry : String × ℕ) (hdecodes : Decodes entry.1)
    (hfresh : (draws entry.2).txId ∉ db.signedTxs.map SignedTxRow.txId) :
    ∃ done db' made, (signBatchEntry networkId quorum params signers draws entry).run exec db =
        (.ok done, db') ∧ Makes db db' [done.returned] [made] ∧
      some made.content = contentOf networkId quorum (signerShares signers) entry.1 ∧
      db'.networks = db.networks ∧ db'.nodes = db.nodes ∧
      db'.signedTxs.map SignedTxRow.txId =
        db.signedTxs.map SignedTxRow.txId ++ [(draws entry.2).txId] := by
  obtain ⟨msg, hmsg⟩ := hdecodes
  obtain ⟨sig, hsign, _⟩ := signWithQuorum_of_nodup hsize hnodup hquorum msg (draws entry.2).tag
  have hpoint := combinedSig_eq hsize hnodup hquorum hsign
  have hcases := run_recordSignature_cases hnet msg sig (draws entry.2)
    (rfl : (recordSignature networkId quorum msg sig (draws entry.2)).run execFaulty
      (db, Faults.never) = _)
  rcases hcases with ⟨hfirst, _⟩ | ⟨_, hsecond, _⟩ | ⟨_, _, _, db', hrun, hrecorded⟩
  · exact (hfirst rfl).elim
  · exact (hsecond.elim (fun h => h rfl) hfresh).elim
  rw [signBatchEntry, decodeMessage_of_decodes hmsg, lift_ok, ok_bind, hsign, lift_ok, ok_bind,
    run_bind_of_ok (run_of_faulty_never hrun)]
  let made : MadeSignature := {
    combinedSigHex := ByteString.hexEncode sig.combinedSig.toBytes
    messageHashHex := ByteString.hexEncode (Ats.hashMessage msg).toBytes
    ledger := { ledgerRow networkId quorum msg sig (draws entry.2) with
      blockIndex := db.ledger.length + 1 }
    signedTx := signedTxRow networkId quorum msg sig (draws entry.2) }
  refine ⟨_, db', made, rfl, ⟨rfl, hrecorded.ledger, hrecorded.signedTxs⟩, ?_, hrecorded.networks,
    hrecorded.nodes, hrecorded.txIds⟩
  simp only [contentOf, hmsg, ← hpoint]
  rfl

omit [Curve] [Cipher] in
/-- Messages of which each one is made, under a condition on networks and nodes, are all made, in
their order. -/
theorem run_mapM_makes {β : Type} {f : String × ℕ → Handler β} {returned : β → String × String}
    {content : String → Option MadeSignature} {draws : ℕ → MessageDraws} {P : Db → Prop}
    (hkept : ∀ db db', P db → db'.networks = db.networks → db'.nodes = db.nodes → P db')
    (hmakes : ∀ db entry, P db → Decodes entry.1 →
      (draws entry.2).txId ∉ db.signedTxs.map SignedTxRow.txId →
      ∃ done db' made, (f entry).run exec db = (.ok done, db') ∧
        Makes db db' [returned done] [made] ∧ some made.content = content entry.1 ∧
        db'.networks = db.networks ∧ db'.nodes = db.nodes ∧
        db'.signedTxs.map SignedTxRow.txId =
          db.signedTxs.map SignedTxRow.txId ++ [(draws entry.2).txId])
    {entries : List (String × ℕ)} (hP : P db) (hdecode : ∀ entry ∈ entries, Decodes entry.1)
    (hfresh : FreshIds db draws entries) :
    ∃ done db' made, (entries.mapM f).run exec db = (.ok done, db') ∧
      Makes db db' (done.map returned) made ∧
      made.map (fun m => some m.content) = entries.map fun entry => content entry.1 := by
  induction entries generalizing db with
  | nil => exact ⟨[], db, [], rfl, ⟨rfl, by simp, by simp⟩, rfl⟩
  | cons entry entries ih =>
    obtain ⟨hfirst, hrest⟩ := List.forall_mem_cons.mp hdecode
    obtain ⟨done, next, made, hrun, hmade, hcontent, hnetworks, hnodes, hids⟩ :=
      hmakes db entry hP hfirst (hfresh.of_mem List.mem_cons_self)
    obtain ⟨rest, db', others, hrun', hmade', hcontents⟩ :=
      ih (hkept db next hP hnetworks hnodes) hrest
        (by rw [FreshIds, hids]; exact FreshIds.cons_iff.mp hfresh)
    refine ⟨done :: rest, db', made :: others, ?_, hmade.append hmade', ?_⟩
    · rw [List.mapM_cons, run_bind_of_ok hrun, run_bind_of_ok hrun']
      rfl
    · rw [List.map_cons, List.map_cons, hcontent, hcontents]

/-- All messages are signed and recorded, in their order. -/
theorem run_entries_makes (hsize : params.threshold ≤ signers.length) (hquorum : quorum ≠ [])
    (hnodup : (signers.map Ats.SignerConfig.nodeId).Nodup) {draws : ℕ → MessageDraws}
    {entries : List (String × ℕ)} (hnet : networkId ∈ db.networks.map NetworkRow.id)
    (hdecode : ∀ entry ∈ entries, Decodes entry.1) (hfresh : FreshIds db draws entries) :
    ∃ done db' made,
      (entries.mapM (signBatchEntry networkId quorum params signers draws)).run exec db =
        (.ok done, db') ∧ Makes db db' (done.map BatchSignEntry.returned) made ∧
      made.map (fun m => some m.content) =
        entries.map fun entry => contentOf networkId quorum (signerShares signers) entry.1 := by
  refine run_mapM_makes (P := fun db => networkId ∈ db.networks.map NetworkRow.id) ?_ ?_ hnet
    hdecode hfresh
  · intro db db' hnet hnetworks _
    rwa [hnetworks]
  · intro db entry hnet hdecodes hfresh
    exact run_signBatchEntry_makes hnet hsize hquorum hnodup draws entry hdecodes hfresh

/-- A message that was signed and recorded is hexadecimal. -/
theorem decodes_of_signBatchEntry {draws : ℕ → MessageDraws} {entry : String × ℕ}
    {done : BatchSignEntry}
    (h : (signBatchEntry networkId quorum params signers draws entry).run exec db =
      (.ok done, db')) : Decodes entry.1 := by
  obtain ⟨msg, hmsg, _⟩ := run_lift_bind_eq_ok.mp h
  exact ⟨msg, decodeMessage_eq_ok hmsg⟩

/-- Messages that were signed decode. -/
theorem decodes_of_entries {draws : ℕ → MessageDraws} {entries : List (String × ℕ)}
    {done : List BatchSignEntry}
    (h : (entries.mapM (signBatchEntry networkId quorum params signers draws)).run exec db =
      (.ok done, db')) : ∀ entry ∈ entries, Decodes entry.1 := by
  induction entries generalizing db db' done with
  | nil => exact nofun
  | cons entry entries ih =>
    rw [List.mapM_cons] at h
    obtain ⟨_, next, hfirst, h⟩ := run_bind_eq_ok.mp h
    obtain ⟨_, _, hrest, _⟩ := run_bind_eq_ok.mp h
    exact List.forall_mem_cons.mpr ⟨decodes_of_signBatchEntry hfirst, ih hrest⟩

end Recording

/-! ## Requests that are prepared -/

namespace SigningRequest

variable [Cipher] {request : SigningRequest} {params : Ats.NetworkPublicParams}
  {signers : List Ats.SignerConfig}

/-- A prepared request goes on to its messages. -/
theorem run_answer_of_prepares (h : request.Prepares networkId db params signers) :
    (request.answer networkId).run exec db = (do
      let done ← request.entries.mapM
        (signBatchEntry networkId request.quorum params signers request.draws)
      return (request.quorum, done) : Handler _).run exec db := by
  obtain ⟨haccept, net, hnet, hcheck, hlength, hselect⟩ := h
  rw [answer_eq, haccept, lift_ok, ok_bind,
    run_bind_of_ok (run_fetchNetwork_eq_ok.mpr ⟨hnet, rfl⟩), hcheck, lift_ok, ok_bind,
    run_bind_of_ok (run_loadNodes_eq_ok.mpr ⟨rfl, hlength, rfl⟩), hselect]
  rfl

/-- A request that is answered was prepared, and its messages are hexadecimal. -/
theorem prepares_of_answer {answered : List ParticipantId × List BatchSignEntry}
    (h : (request.answer networkId).run exec db = (.ok answered, db')) :
    (∃ params signers, request.Prepares networkId db params signers) ∧
      ∀ entry ∈ request.entries, Decodes entry.1 := by
  rw [answer_eq] at h
  obtain ⟨_, haccept, h⟩ := run_lift_bind_eq_ok.mp h
  obtain ⟨net, _, hfetch, h⟩ := run_bind_eq_ok.mp h
  obtain ⟨hnet, rfl⟩ := run_fetchNetwork_eq_ok.mp hfetch
  obtain ⟨_, hcheck, h⟩ := run_lift_bind_eq_ok.mp h
  obtain ⟨rows, _, hload, h⟩ := run_bind_eq_ok.mp h
  obtain ⟨rfl, hlength, rfl⟩ := run_loadNodes_eq_ok.mp hload
  obtain ⟨selected, hselect, h⟩ := run_lift_bind_eq_ok.mp h
  obtain ⟨_, _, hentries, _⟩ := run_bind_eq_ok.mp h
  exact ⟨⟨selected.1, selected.2, haccept, net, hnet, hcheck, hlength, hselect⟩,
    decodes_of_entries hentries⟩

omit [Cipher] in
/-- What a request is prepared with is read from the networks and the nodes. -/
theorem Prepares.of_eq (h : request.Prepares networkId db params signers)
    (hnetworks : db'.networks = db.networks) (hnodes : db'.nodes = db.nodes) :
    request.Prepares networkId db' params signers := by
  rw [Prepares, Db.getNetwork, Db.getNodesByNetwork, hnetworks, hnodes]
  exact h

omit [Cipher] in
/-- Requests for the same signers are prepared alike. -/
theorem Prepares.transfer (h : request.Prepares networkId db params signers)
    {request' : SigningRequest} (hquorum : request'.quorum = request.quorum)
    (haccept : request'.accept = .ok ())
    (hcheck : ∀ net, request.check net = .ok () → request'.check net = .ok ()) :
    ∃ params' signers', request'.Prepares networkId db params' signers' ∧
      signerShares signers' = signerShares signers := by
  obtain ⟨_, _, hsigners, _⟩ := h.selected
  obtain ⟨_, net, hnet, hchecked, hlength, hselect⟩ := h
  obtain ⟨params', signers', hselect'⟩ := select_exists_of_ok hquorum hselect
  have hprepares : request'.Prepares networkId db params' signers' :=
    ⟨haccept, net, hnet, hcheck net hchecked, hlength, hselect'⟩
  obtain ⟨_, _, hsigners', _⟩ := hprepares.selected
  exact ⟨params', signers', hprepares, signerShares_unique (hquorum ▸ hsigners') hsigners⟩

omit [Cipher] in
/-- The selected signers are different when the requested ids are. -/
theorem Prepares.nodup (h : request.Prepares networkId db params signers)
    (hnodup : request.quorum.Nodup) : (signers.map Ats.SignerConfig.nodeId).Nodup := by
  obtain ⟨_, _, hsigners, _⟩ := h.selected
  rw [map_nodeId_of_signsFor hsigners]
  exact hnodup.filter _

omit [Curve] [Cipher] in
/-- A single request is checked for its quorum and its message. -/
theorem check_sign_eq_ok {net : NetworkRow} {req : SignRequest} {draws : SignDraws} :
    (sign req draws).check net = .ok () ↔
      checkSignable net req.quorum = .ok () ∧ Decodes req.message := by
  rw [check, Outcome.bind_eq_ok]
  constructor
  · rintro ⟨_, hchecked, h⟩
    obtain ⟨msg, hmsg, _⟩ := Outcome.bind_eq_ok.mp h
    exact ⟨hchecked, msg, decodeMessage_eq_ok hmsg⟩
  · rintro ⟨hchecked, msg, hmsg⟩
    exact ⟨_, hchecked, by rw [decodeMessage_of_decodes hmsg]; rfl⟩

end SigningRequest

/-! ## Alone and in a batch -/

section Requests

variable [Cipher] {req : SignRequest} {draws : SignDraws} {params : Ats.NetworkPublicParams}
  {signers : List Ats.SignerConfig}

/-- A message that is signed alone. -/
theorem signMessage_makes
    (h : (SigningRequest.sign req draws).Prepares networkId db params signers)
    (hnodup : req.quorum.Nodup)
    (hfresh : draws.message.txId ∉ db.signedTxs.map SignedTxRow.txId) :
    ∃ response db' made, (signMessage networkId req draws).run exec db = (.ok response, db') ∧
      Makes db db' [response.returned] [made] ∧
      some made.content =
        contentOf networkId req.quorum (signerShares signers) req.message ∧
      db'.networks = db.networks ∧ db'.nodes = db.nodes ∧
      db'.signedTxs.map SignedTxRow.txId =
        db.signedTxs.map SignedTxRow.txId ++ [draws.message.txId] := by
  obtain ⟨hsize, hquorum, _⟩ := h.selected
  obtain ⟨_, net, hnet, hcheck, _⟩ := id h
  obtain ⟨done, db', made, hrun, hmakes, hcontent, hframe⟩ :=
    run_signBatchEntry_makes (Db.mem_networks_of_getNetwork hnet) hsize hquorum (h.nodup hnodup)
      (SigningRequest.sign req draws).draws (req.message, 0)
      (SigningRequest.check_sign_eq_ok.mp hcheck).2 hfresh
  have hanswer : ((SigningRequest.sign req draws).answer networkId).run exec db =
      (.ok (req.quorum, [done]), db') := by
    rw [SigningRequest.run_answer_of_prepares h, SigningRequest.entries, List.mapM_cons,
      List.mapM_nil, Program.bind_assoc, run_bind_of_ok hrun]
    rfl
  obtain ⟨response, _, hsign, hreturn⟩ := run_bind_eq_ok.mp hanswer
  obtain ⟨hvalue, rfl⟩ := Prod.mk.inj hreturn
  obtain rfl := List.singleton_inj.mp (Prod.mk.inj (Except.ok.inj hvalue)).2
  exact ⟨response, _, made, hsign, hmakes, hcontent, hframe⟩

/-- A message that was signed alone is hexadecimal, and its request was prepared. -/
theorem prepares_of_signMessage {response : SignResponse}
    (h : (signMessage networkId req draws).run exec db = (.ok response, db')) :
    (∃ params signers, (SigningRequest.sign req draws).Prepares networkId db params signers) ∧
      Decodes req.message := by
  have hanswer : ((SigningRequest.sign req draws).answer networkId).run exec db =
      (.ok _, db') := run_bind_of_ok h
  obtain ⟨hprepares, hdecode⟩ := SigningRequest.prepares_of_answer hanswer
  exact ⟨hprepares, hdecode (req.message, 0) List.mem_cons_self⟩

variable {messages : List String} {quorum : List ParticipantId} {batch : BatchDraws}

omit [Curve] [Cipher] in
theorem forall_mem_zipIdx {P : String → Prop} :
    (∀ entry ∈ messages.zipIdx, P entry.1) ↔ ∀ message ∈ messages, P message := by
  conv_rhs => rw [← List.zipIdx_map_fst 0 messages, List.forall_mem_map]

omit [Curve] [Cipher] in
theorem map_zipIdx_fst {β : Type} (f : String → β) :
    messages.zipIdx.map (fun entry => f entry.1) = messages.map f := by
  conv_rhs => rw [← List.zipIdx_map_fst 0 messages, List.map_map]
  rfl

/-- The messages of a batch that was prepared. -/
theorem batchSign_makes
    (h : (SigningRequest.batch ⟨messages, quorum⟩ batch).Prepares networkId db params signers)
    (hnodup : quorum.Nodup) (hdecode : ∀ message ∈ messages, Decodes message)
    (hfresh : FreshIds db batch.message messages.zipIdx) :
    ∃ response db' made,
      (batchSign networkId ⟨messages, quorum⟩ batch).run exec db = (.ok response, db') ∧
      Makes db db' (response.signatures.map BatchSignEntry.returned) made ∧
      made.map (fun m => some m.content) =
        messages.map (contentOf networkId quorum (signerShares signers)) := by
  obtain ⟨hsize, hquorum, _⟩ := h.selected
  obtain ⟨_, net, hnet, _⟩ := id h
  obtain ⟨done, db', made, hrun, hmakes, hcontent⟩ := run_entries_makes hsize hquorum
    (h.nodup hnodup) (Db.mem_networks_of_getNetwork hnet)
    (forall_mem_zipIdx.mpr hdecode) hfresh
  have hanswer : ((SigningRequest.batch ⟨messages, quorum⟩ batch).answer networkId).run exec db =
      (.ok (quorum, done), db') := by
    rw [SigningRequest.run_answer_of_prepares h]
    exact run_bind_of_ok hrun
  obtain ⟨response, _, hsign, hreturn⟩ := run_bind_eq_ok.mp hanswer
  cases hreturn
  exact ⟨response, db', made, hsign, hmakes, hcontent.trans (map_zipIdx_fst _)⟩

/-- A batch that is answered has found its signers, and its messages decode. -/
theorem prepares_of_batchSign {response : BatchSignResponse}
    (h : (batchSign networkId ⟨messages, quorum⟩ batch).run exec db = (.ok response, db')) :
    (∃ params signers,
      (SigningRequest.batch ⟨messages, quorum⟩ batch).Prepares networkId db params signers) ∧
      ∀ message ∈ messages, Decodes message := by
  have hanswer : ((SigningRequest.batch ⟨messages, quorum⟩ batch).answer networkId).run exec db =
      (.ok _, db') := run_bind_of_ok h
  obtain ⟨hprepares, hdecode⟩ := SigningRequest.prepares_of_answer hanswer
  exact ⟨hprepares, forall_mem_zipIdx.mp hdecode⟩

omit [Cipher] in
/-- A message of a prepared batch could be signed alone. -/
theorem prepares_sign_of_batch
    (h : (SigningRequest.batch ⟨messages, quorum⟩ batch).Prepares networkId db params signers)
    {message : String} (hdecodes : Decodes message) (draws : SignDraws) :
    ∃ params' signers',
      (SigningRequest.sign ⟨message, quorum⟩ draws).Prepares networkId db params' signers' ∧
      signerShares signers' = signerShares signers :=
  h.transfer rfl rfl fun _ hcheck => SigningRequest.check_sign_eq_ok.mpr ⟨hcheck, hdecodes⟩

omit [Cipher] in
/-- If one message can be signed alone, a batch is prepared. -/
theorem prepares_batch_of_sign (hsome : 1 ≤ messages.length) (hmany : messages.length ≤ 100)
    {message : String}
    (h : (SigningRequest.sign ⟨message, quorum⟩ draws).Prepares networkId db params signers)
    (batch : BatchDraws) : ∃ params' signers',
      (SigningRequest.batch ⟨messages, quorum⟩ batch).Prepares networkId db params' signers' ∧
      signerShares signers' = signerShares signers := by
  have haccept : (SigningRequest.batch ⟨messages, quorum⟩ batch).accept = .ok () := by
    have hnonempty : ¬ messages.isEmpty = true := by
      rw [List.isEmpty_iff_length_eq_zero]
      omega
    rw [SigningRequest.accept, if_neg hnonempty, if_neg (not_lt.mpr hmany)]
  exact h.transfer rfl haccept fun _ hcheck => (SigningRequest.check_sign_eq_ok.mp hcheck).1

variable {single : ℕ → SignDraws}

/-- Sign the messages alone, one after another. -/
def signEach (networkId : String) (quorum : List ParticipantId) (entries : List (String × ℕ))
    (draws : ℕ → SignDraws) : Handler (List SignResponse) :=
  entries.mapM fun entry => signMessage networkId ⟨entry.1, quorum⟩ (draws entry.2)

/-- Where a batch would be prepared, its messages can be signed one after another. -/
theorem signEach_makes
    (h : (SigningRequest.batch ⟨messages, quorum⟩ batch).Prepares networkId db params signers)
    (hnodup : quorum.Nodup) {entries : List (String × ℕ)}
    (hdecode : ∀ entry ∈ entries, Decodes entry.1)
    (hfresh : FreshIds db (fun i => (single i).message) entries) :
    ∃ responses db' made,
      (signEach networkId quorum entries single).run exec db = (.ok responses, db') ∧
      Makes db db' (responses.map SignResponse.returned) made ∧
      made.map (fun m => some m.content) =
        entries.map fun entry => contentOf networkId quorum (signerShares signers) entry.1 := by
  refine run_mapM_makes (P := fun db => (SigningRequest.batch ⟨messages, quorum⟩ batch).Prepares
    networkId db params signers) ?_ ?_ h hdecode hfresh
  · intro db db' h hnetworks hnodes
    exact h.of_eq hnetworks hnodes
  · intro db entry h hdecodes hnew
    obtain ⟨_, _, hprepares, hshares⟩ := prepares_sign_of_batch h hdecodes (single entry.2)
    rw [← hshares]
    exact signMessage_makes hprepares hnodup hnew

/-- Messages that were signed one after another are hexadecimal, and the request for the
first one was prepared. -/
theorem prepares_of_signEach {entries : List (String × ℕ)} {responses : List SignResponse}
    (h : (signEach networkId quorum entries single).run exec db = (.ok responses, db')) :
    (∀ entry ∈ entries, Decodes entry.1) ∧ ∀ entry ∈ entries.head?, ∃ params signers,
      (SigningRequest.sign ⟨entry.1, quorum⟩ (single entry.2)).Prepares networkId db params
        signers := by
  induction entries generalizing db db' responses with
  | nil => exact ⟨nofun, nofun⟩
  | cons entry entries ih =>
    rw [signEach, List.mapM_cons] at h
    obtain ⟨_, next, hfirst, h⟩ := run_bind_eq_ok.mp h
    obtain ⟨_, _, hrest, _⟩ := run_bind_eq_ok.mp h
    obtain ⟨hprepares, hdecodes⟩ := prepares_of_signMessage hfirst
    refine ⟨List.forall_mem_cons.mpr ⟨hdecodes, (ih hrest).1⟩, ?_⟩
    rintro _ ⟨⟩
    exact hprepares

/-- A batch is prepared and can be decoded. -/
def BatchReady (networkId : String) (db : Db) (messages : List String)
    (quorum : List ParticipantId) (batch : BatchDraws) : Prop :=
  (∃ params signers,
    (SigningRequest.batch ⟨messages, quorum⟩ batch).Prepares networkId db params signers) ∧
    ∀ message ∈ messages, Decodes message

/-- A batch is answered just if everything is ready for it. -/
theorem batchSign_answered_iff (hnodup : quorum.Nodup)
    (hfresh : FreshIds db batch.message messages.zipIdx) :
    (∃ response db', (batchSign networkId ⟨messages, quorum⟩ batch).run exec db =
      (.ok response, db')) ↔ BatchReady networkId db messages quorum batch := by
  constructor
  · rintro ⟨response, db', hrun⟩
    exact prepares_of_batchSign hrun
  · rintro ⟨⟨params, signers, hprepares⟩, hdecode⟩
    obtain ⟨response, db', _, hrun, _⟩ := batchSign_makes hprepares hnodup hdecode hfresh
    exact ⟨response, db', hrun⟩

/-- So is each of the single requests. -/
theorem signMessage_answered_iff (hnodup : quorum.Nodup) (hsome : 1 ≤ messages.length)
    (hmany : messages.length ≤ 100)
    (hfresh : FreshIds db (fun i => (single i).message) messages.zipIdx) (batch : BatchDraws) :
    (∀ entry ∈ messages.zipIdx, ∃ response db',
      (signMessage networkId ⟨entry.1, quorum⟩ (single entry.2)).run exec db =
        (.ok response, db')) ↔ BatchReady networkId db messages quorum batch := by
  constructor
  · intro hanswered
    refine ⟨?_, forall_mem_zipIdx.mp fun entry hentry => ?_⟩
    · obtain ⟨entry, hentry⟩ := List.exists_mem_of_length_pos (l := messages.zipIdx)
        (by rw [List.length_zipIdx]; omega)
      obtain ⟨_, _, hrun⟩ := hanswered entry hentry
      obtain ⟨⟨_, _, hprepares⟩, _⟩ := prepares_of_signMessage hrun
      obtain ⟨params, signers, hprepares, _⟩ :=
        prepares_batch_of_sign hsome hmany hprepares batch
      exact ⟨params, signers, hprepares⟩
    · obtain ⟨_, _, hrun⟩ := hanswered entry hentry
      exact (prepares_of_signMessage hrun).2
  · rintro ⟨⟨_, _, hprepares⟩, hdecode⟩ entry hentry
    obtain ⟨_, _, hprepares, _⟩ := prepares_sign_of_batch hprepares
      (hdecode entry.1 (List.fst_mem_of_mem_zipIdx hentry)) (single entry.2)
    obtain ⟨response, db', _, hrun, _⟩ :=
      signMessage_makes hprepares hnodup (hfresh.of_mem hentry)
    exact ⟨response, db', hrun⟩

/-- So are the single requests one after the other. -/
theorem signEach_answered_iff (hnodup : quorum.Nodup) (hsome : 1 ≤ messages.length)
    (hmany : messages.length ≤ 100)
    (hfresh : FreshIds db (fun i => (single i).message) messages.zipIdx) (batch : BatchDraws) :
    (∃ responses db', (signEach networkId quorum messages.zipIdx single).run exec db =
      (.ok responses, db')) ↔ BatchReady networkId db messages quorum batch := by
  constructor
  · rintro ⟨_, _, hrun⟩
    obtain ⟨hdecode, hfirst⟩ := prepares_of_signEach hrun
    refine ⟨?_, forall_mem_zipIdx.mp hdecode⟩
    obtain ⟨message, rest, rfl⟩ := List.exists_cons_of_length_pos hsome
    obtain ⟨_, _, hprepares⟩ := hfirst (message, 0) rfl
    obtain ⟨params, signers, hprepares, _⟩ := prepares_batch_of_sign hsome hmany hprepares batch
    exact ⟨params, signers, hprepares⟩
  · rintro ⟨⟨_, _, hprepares⟩, hdecode⟩
    obtain ⟨responses, db', _, hrun, _⟩ :=
      signEach_makes hprepares hnodup (forall_mem_zipIdx.mpr hdecode) hfresh
    exact ⟨responses, db', hrun⟩

/-- The batch is answered exactly when its messages are answered alone, each on the same
database or one after another, and it makes the same of them. -/
structure BatchAgrees (networkId : String) (db : Db) (messages : List String)
    (quorum : List ParticipantId) (batch : BatchDraws) (single : ℕ → SignDraws) : Prop where
  answered : (∃ response db', (batchSign networkId ⟨messages, quorum⟩ batch).run exec db =
      (.ok response, db')) ↔
    ∀ entry ∈ messages.zipIdx, ∃ response db',
      (signMessage networkId ⟨entry.1, quorum⟩ (single entry.2)).run exec db = (.ok response, db')
  answeredInTurn : (∃ response db', (batchSign networkId ⟨messages, quorum⟩ batch).run exec db =
      (.ok response, db')) ↔
    ∃ responses db',
      (signEach networkId quorum messages.zipIdx single).run exec db = (.ok responses, db')
  makes : ∀ response db',
    (batchSign networkId ⟨messages, quorum⟩ batch).run exec db = (.ok response, db') →
    ∃ made, made.length = messages.length ∧
      Makes db db' (response.signatures.map BatchSignEntry.returned) made ∧
      (∀ entry ∈ messages.zipIdx, ∀ answer after,
        (signMessage networkId ⟨entry.1, quorum⟩ (single entry.2)).run exec db =
          (.ok answer, after) →
        ∃ m m', made[entry.2]? = some m ∧ Makes db after [answer.returned] [m'] ∧
          m.content = m'.content) ∧
      ∀ answers after,
        (signEach networkId quorum messages.zipIdx single).run exec db = (.ok answers, after) →
        ∃ made', Makes db after (answers.map SignResponse.returned) made' ∧
          made.map MadeSignature.content = made'.map MadeSignature.content

/-- **Batches.** For different signers and fresh ids, a batch of 1 to 100 messages agrees with
its messages signed alone, whatever is drawn. -/
theorem batch_agrees (networkId : String) (db : Db) {messages : List String}
    {quorum : List ParticipantId} (hnodup : quorum.Nodup) (hsome : 1 ≤ messages.length)
    (hmany : messages.length ≤ 100) {batch : BatchDraws} {single : ℕ → SignDraws}
    (hbatch : FreshIds db batch.message messages.zipIdx)
    (hsingle : FreshIds db (fun i => (single i).message) messages.zipIdx) :
    BatchAgrees networkId db messages quorum batch single where
  answered := (batchSign_answered_iff hnodup hbatch).trans
    (signMessage_answered_iff hnodup hsome hmany hsingle batch).symm
  answeredInTurn := (batchSign_answered_iff hnodup hbatch).trans
    (signEach_answered_iff hnodup hsome hmany hsingle batch).symm
  makes response db' hrun := by
    obtain ⟨⟨params, signers, hprepares⟩, hdecode⟩ := prepares_of_batchSign hrun
    obtain ⟨_, _, made, hrun', hmakes, hcontent⟩ :=
      batchSign_makes hprepares hnodup hdecode hbatch
    cases hrun'.symm.trans hrun
    refine ⟨made, by simpa using congrArg List.length hcontent, hmakes, ?_, ?_⟩
    · intro entry hentry answer after hsign
      have hdecodes := hdecode entry.1 (List.fst_mem_of_mem_zipIdx hentry)
      obtain ⟨_, _, hprepares', hshares⟩ :=
        prepares_sign_of_batch hprepares hdecodes (single entry.2)
      obtain ⟨_, _, m', hsign', hmakes', hcontent', _⟩ :=
        signMessage_makes hprepares' hnodup (hsingle.of_mem hentry)
      cases hsign'.symm.trans hsign
      have hposition : (made.map fun m => some m.content)[entry.2]? = some (some m'.content) := by
        rw [hcontent, List.getElem?_map, List.mem_zipIdx_iff_getElem?.mp hentry, Option.map_some,
          hcontent', hshares]
      rw [List.getElem?_map, Option.map_eq_some_iff] at hposition
      obtain ⟨m, hm, hsame⟩ := hposition
      exact ⟨m, m', hm, hmakes', Option.some.inj hsame⟩
    · intro answers after hsign
      obtain ⟨_, _, made', hsign', hmakes', hcontent'⟩ :=
        signEach_makes hprepares hnodup (forall_mem_zipIdx.mpr hdecode) hsingle
      cases hsign'.symm.trans hsign
      refine ⟨made', hmakes', List.map_injective_iff.mpr (Option.some_injective _) ?_⟩
      rw [List.map_map, List.map_map]
      exact hcontent.trans ((map_zipIdx_fst _).symm.trans hcontent'.symm)

end Requests

/-- The draws of a batch of two messages. -/
def twoMessageDraws : BatchDraws :=
  ⟨fun _ => 1, fun i => ⟨fun _ => ⟨1, 0⟩, if i = 0 then "tx0" else "tx1", "", ""⟩⟩

/-- Other draws for two messages, which are signed alone. -/
def otherDraws (i : ℕ) : SignDraws :=
  ⟨fun _ => 0, fun _ => ⟨0, 0⟩, if i = 0 then "a0" else "a1", "", ""⟩

/-- Both nodes of the network of two nodes sign two messages. -/
def twoMessageRun : Except (Fault ApiError) BatchSignResponse × Db :=
  letI := exponentCurve
  letI := plainCipher
  (batchSign "a" ⟨["01", "02"], [2, 1]⟩ twoMessageDraws).run exec twoNodeKeys.2

omit [Curve] in
/-- Two messages, in one batch and one by one. -/
theorem batch_agrees_two_messages :
    letI := exponentCurve
    letI := plainCipher
    twoMessageRun.1.isOk = true ∧
      BatchAgrees "a" twoNodeKeys.2 ["01", "02"] [2, 1] twoMessageDraws otherDraws := by
  let := exponentCurve
  let := plainCipher
  refine ⟨by decide +kernel, batch_agrees "a" twoNodeKeys.2 (by decide) (by decide) (by decide)
    ?_ ?_⟩
  · unfold FreshIds
    decide +kernel
  · unfold FreshIds
    decide +kernel

end Sigimora.Server
