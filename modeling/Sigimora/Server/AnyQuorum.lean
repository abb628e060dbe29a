import Sigimora.Server.Lifecycle
import Sigimora.Server.Recording

/-!
# Any quorum

A request to sign names its signers by any list of ids. On a network with
consistent keys it is answered with a valid signature of enough different nodes,
or with an error, unless enough nodes are found and one of them twice. Then the
aggregation panics.
-/

namespace Sigimora.Server

open Handler Program

variable [Curve] {db : Db} {networkId : String} {n t : ℕ}

/-! ## Selecting signers -/

/-- No list of ids makes the selection of a quorum panic. -/
theorem noPanic_selectQuorum (t : ℕ) (quorum : List ParticipantId) (members : List Member) :
    (selectQuorum t quorum members).NoPanic := by
  simp only [selectQuorum]
  split
  · exact Outcome.noPanic_fail _
  · exact Outcome.noPanic_ok _

/-- From well-formed rows signers are selected without a panic, and if enough nodes are
found, they are selected. -/
theorem SigningRequest.select_exists {net : NetworkRow} {rows : List NodeRow}
    {pk trackingPk : G2Point} {share : ParticipantId → Scalar}
    (hpk : net.collectivePk = some pk.toBytes)
    (htracking : net.trackingPk = some trackingPk.toBytes) (hrows : RowsHold rows n share)
    (hkeys : ∀ row ∈ rows, ∃ key : G2Point, row.publicKey = key.toBytes)
    (request : SigningRequest) :
    (request.select net rows).NoPanic ∧
      (net.t + 1 ≤ (foundIds rows request.quorum).length →
        ∃ params signers, request.select net rows = .ok (params, signers)) := by
  obtain ⟨params, members, hbuild⟩ := buildParams_exists request.ltSks hpk htracking hrows hkeys
  rw [select, hbuild, Outcome.ok_bind]
  refine ⟨?_, fun hsize => ?_⟩
  · exact Outcome.noPanic_bind_iff.mpr
      ⟨noPanic_selectQuorum _ _ _, fun _ _ => Outcome.noPanic_ok _⟩
  · obtain ⟨_, _, hmembers⟩ := buildParams_holds hpk hrows hbuild
    have hids : rows.map NodeRow.participant = participants n := hrows.ids
    rw [foundIds, hids] at hsize
    obtain ⟨signers, hselect⟩ := selectQuorum_exists hmembers hsize
    exact ⟨params, signers, by rw [hselect]; rfl⟩

/-- The signers sign with the shares that the rows hold. -/
theorem dkgShare_of_signsFor {rows : List NodeRow} {quorum : List ParticipantId}
    {signers : List Ats.SignerConfig} {share : ParticipantId → Scalar}
    (hsigners : List.Forall₂ SignsFor signers (quorumRows rows quorum))
    (hrows : RowsHold rows n share) {s : Ats.SignerConfig} (hs : s ∈ signers) :
    s.dkgShare = share s.nodeId := by
  obtain ⟨row, hmem, hid, hshare⟩ := Outcome.exists_of_forall₂ hsigners hs
  obtain ⟨qid, _, hfind⟩ := List.mem_filterMap.mp hmem
  have hrow := hrows.secret (List.mem_of_find?_eq_some hfind)
  rw [decodeKeyShare_eq_ok hrow, Except.ok.injEq] at hshare
  rw [← hshare, hid]
  rfl

/-! ## Signing with any quorum -/

section Signing

variable [Cipher] {req : SignRequest} {draws : SignDraws}

/-- The request is answered without a panic, and with a signature only if it names
`t + 1` different nodes; then the signature verifies. -/
def SignsSafely (networkId : String) (t : ℕ) (req : SignRequest) (draws : SignDraws) (db : Db) :
    Prop :=
  Outcome.NoPanic ((signMessage networkId req draws).run exec db).1 ∧
    ∀ response db', (signMessage networkId req draws).run exec db = (.ok response, db') →
      t + 1 ≤ (foundIds (db.getNodesByNetwork networkId) req.quorum).dedup.length ∧
      (verifySignature networkId ⟨req.message, response.combinedSigHex⟩).run exec db' =
        (.ok ⟨true, networkId⟩, db')

/-- What a signing request tells about the request to sign. -/
theorem signMessage_eq_ok {result : List ParticipantId × List String} {after : Db × Faults DbError}
    (h : ((SigningRequest.sign req draws).handle networkId).run execFaulty (db, Faults.never) =
      (.ok result, after)) :
    ∃ response, (signMessage networkId req draws).run exec db = (.ok response, after.1) ∧
      result = (response.quorum, [response.combinedSigHex]) := by
  obtain ⟨response, store, hsign, hreturn⟩ := run_bind_eq_ok.mp (run_of_faulty_never h)
  cases hreturn
  exact ⟨response, hsign, rfl⟩

/-- A request that fails without database faults fails in the handler. -/
theorem signMessage_eq_error {fault : Fault ApiError} {after : Db × Faults DbError}
    (h : ((SigningRequest.sign req draws).handle networkId).run execFaulty (db, Faults.never) =
      (.error fault, after)) :
    ((signMessage networkId req draws).run exec db).1 = .error fault := by
  have hrun := run_of_faulty_never h
  rw [SigningRequest.handle, run_bind_pure] at hrun
  cases hresult : ((signMessage networkId req draws).run exec db).1 with
  | error fault' =>
    rw [hresult] at hrun
    cases (Prod.mk.inj hrun).1
    rfl
  | ok response =>
    rw [hresult] at hrun
    cases (Prod.mk.inj hrun).1

omit [Cipher] in
/-- On consistent keys, a request that finds enough nodes gets to sign. -/
theorem prepares_of_found {share : ParticipantId → Scalar} {sk : Scalar}
    (hdb : Provisioned db networkId n t share) (hkey : CollectiveKey db networkId sk)
    (hlength : (db.getNodesByNetwork networkId).length = n) (hdecodes : Decodes req.message)
    (hsize : t + 1 ≤ (foundIds (db.getNodesByNetwork networkId) req.quorum).length)
    (draws : SignDraws) :
    ∃ params signers, (SigningRequest.sign req draws).Prepares networkId db params signers := by
  obtain ⟨net, hnet, hstate, hpk⟩ := hkey
  obtain ⟨stored, hstored, rfl, rfl, trackingPk, htracking⟩ := hdb.network
  cases hnet.symm.trans hstored
  obtain ⟨msg, hmsg⟩ := hdecodes
  obtain ⟨_, hselect⟩ := SigningRequest.select_exists hpk htracking hdb.rows hdb.publicKeys
    (.sign req draws)
  obtain ⟨params, signers, hselect⟩ := hselect hsize
  refine ⟨params, signers, rfl, net, hnet, ?_, hlength, hselect⟩
  have henough := hsize.trans (List.length_filter_le _ req.quorum)
  rw [SigningRequest.check, checkSignable, if_neg (not_not.mpr hstate), if_neg (by omega),
    decodeMessage_of_decodes hmsg]
  rfl

/-- Different signers sign the message, and then it is recorded or the database refuses. -/
theorem run_record_of_nodup {request : SigningRequest} {params : Ats.NetworkPublicParams}
    {signers : List Ats.SignerConfig} (hprepares : request.Prepares networkId db params signers)
    (hentries : request.entries = [(req.message, 0)])
    (hnodup : (signers.map Ats.SignerConfig.nodeId).Nodup) :
    (∃ e after, (request.record networkId params signers).run execFaulty (db, Faults.never) =
      (.error (.err e), after)) ∨
    ∃ msg sig db' faults, ByteString.hexDecode req.message = .ok msg ∧
      signWithQuorum params signers request.quorum msg (request.draws 0).tag = .ok sig ∧
      (request.record networkId params signers).run execFaulty (db, Faults.never) =
        (.ok (request.quorum, [ByteString.hexEncode sig.combinedSig.toBytes]), db', faults) ∧
      db'.networks = db.networks := by
  obtain ⟨hsize, hquorum, hsigners, net, hnet, _⟩ := hprepares.selected
  rw [SigningRequest.record, hentries, List.mapM_cons, List.mapM_nil, Program.bind_assoc]
  rcases run_signBatchEntry_cases (Db.mem_networks_of_getNetwork hnet) hsize hquorum hnodup
    request.draws (req.message, 0) rfl with
    ⟨_, e, after, hrun⟩ | ⟨_, _, e, db', after, hrun, _⟩ |
      ⟨_, _, done, db', msg, sig, hrun, hmsg, hsign, hhex, hrecorded⟩
  · exact Or.inl ⟨e, _, run_bind_of_error hrun⟩
  · exact Or.inl ⟨e, _, run_bind_of_error hrun⟩
  · refine Or.inr ⟨msg, sig, db', Faults.never.drop 2, hmsg, hsign, ?_, hrecorded.networks⟩
    rw [run_bind_of_ok hrun, ← hhex]
    rfl

/-- On consistent keys, different signers are enough for an error or a valid signature. -/
theorem run_handle_sign_cases {p : Polynomial Scalar} (hdegree : p.degree < (t + 1 : ℕ))
    (hdb : Provisioned db networkId n t fun id => p.eval (Scalar.ofId id))
    (hkey : CollectiveKey db networkId (p.eval 0))
    (hdistinct : (db.getNodesByNetwork networkId).length = n →
      t + 1 ≤ (foundIds (db.getNodesByNetwork networkId) req.quorum).length →
      (foundIds (db.getNodesByNetwork networkId) req.quorum).Nodup) (draws : SignDraws) :
    (∃ e after, ((SigningRequest.sign req draws).handle networkId).run execFaulty
      (db, Faults.never) = (.error (.err e), after)) ∨
    ∃ msg db' faults, ByteString.hexDecode req.message = .ok msg ∧
      t + 1 ≤ (foundIds (db.getNodesByNetwork networkId) req.quorum).dedup.length ∧
      ((SigningRequest.sign req draws).handle networkId).run execFaulty (db, Faults.never) =
        (.ok (req.quorum, [ByteString.hexEncode
          (p.eval 0 • Ats.hashMessage msg : G1Point).toBytes]), db', faults) ∧
      db'.networks = db.networks := by
  obtain ⟨net, hnet, _, hpk⟩ := hkey
  obtain ⟨stored, hstored, rfl, rfl, trackingPk, htracking⟩ := hdb.network
  cases hnet.symm.trans hstored
  rcases (SigningRequest.sign req draws).run_handle_cases with
    ⟨fault, after, hstop, hpanic⟩ | ⟨params, signers, hprepares, _, hgo⟩
  · cases fault with
    | err e => exact Or.inl ⟨e, _, hstop⟩
    | panic message =>
      obtain ⟨other, hother, hselect⟩ := hpanic message rfl
      cases hnet.symm.trans hother
      exact ((SigningRequest.select_exists hpk htracking hdb.rows hdb.publicKeys _).1
        message hselect).elim
  · obtain ⟨hthreshold, hquorum, hsigners, other, hother, hsize, hlength⟩ := hprepares.selected
    cases hnet.symm.trans hother
    have hids : signers.map Ats.SignerConfig.nodeId =
        foundIds (db.getNodesByNetwork networkId) req.quorum := map_nodeId_of_signsFor hsigners
    have hfound : net.t + 1 ≤ (foundIds (db.getNodesByNetwork networkId) req.quorum).length := by
      rw [← hids, List.length_map, ← hsize]
      exact hthreshold
    have hnodup := hdistinct hlength hfound
    rcases run_record_of_nodup hprepares rfl (hids ▸ hnodup) with
      ⟨e, after, hrun⟩ | ⟨msg, sig, db', faults, hmsg, hsign, hrun, hnetworks⟩
    · exact Or.inl ⟨e, after, hgo.trans hrun⟩
    · obtain ⟨made, hmade, hvalue⟩ := signWithQuorum_eq_ok hthreshold (hsize ▸ hdegree)
        (hids ▸ hnodup) (fun s hs => dkgShare_of_signsFor hsigners hdb.rows hs) hquorum msg
        ((SigningRequest.sign req draws).draws 0).tag
      cases hsign.symm.trans hmade
      refine Or.inr ⟨msg, db', faults, hmsg, ?_, ?_, hnetworks⟩
      · rwa [hnodup.dedup]
      · rw [← hvalue]
        exact hgo.trans hrun

/-- On consistent keys, enough nodes with one of them twice are aggregated in vain. -/
theorem signMessage_panics {share : ParticipantId → Scalar} {sk : Scalar}
    (hdb : Provisioned db networkId n t share) (hkey : CollectiveKey db networkId sk)
    (hlength : (db.getNodesByNetwork networkId).length = n) (hdecodes : Decodes req.message)
    (hsize : t + 1 ≤ (foundIds (db.getNodesByNetwork networkId) req.quorum).length)
    (hrepeated : ¬ (foundIds (db.getNodesByNetwork networkId) req.quorum).Nodup)
    (draws : SignDraws) :
    ∃ message, ((signMessage networkId req draws).run exec db).1 = .error (.panic message) := by
  obtain ⟨params, signers, hprepares⟩ := prepares_of_found hdb hkey hlength hdecodes hsize draws
  obtain ⟨hthreshold, hquorum, hsigners, _⟩ := hprepares.selected
  have hids : signers.map Ats.SignerConfig.nodeId =
      foundIds (db.getNodesByNetwork networkId) req.quorum := map_nodeId_of_signsFor hsigners
  obtain ⟨fault, hstop, hfault⟩ := run_signBatchEntry_of_repeated hthreshold hquorum
    (hids ▸ hrepeated) (SigningRequest.sign req draws).draws (req.message, 0)
  obtain ⟨message, rfl⟩ := hfault hdecodes
  have hhandle := SigningRequest.run_handle_of_prepares hprepares fun _ _ => rfl
  exact ⟨message,
    signMessage_eq_error (hhandle.trans (run_bind_of_error (run_bind_of_error hstop)))⟩

/-- **Any quorum.** On a network with consistent keys a request to sign a hexadecimal
message is handled safely exactly if it does not find enough nodes with one of them twice. -/
theorem signs_safely_iff (hdb : KeysConsistent db networkId n t) (hdecodes : Decodes req.message) :
    SignsSafely networkId t req draws db ↔
      ((db.getNodesByNetwork networkId).length = n →
        t + 1 ≤ (foundIds (db.getNodesByNetwork networkId) req.quorum).length →
        (foundIds (db.getNodesByNetwork networkId) req.quorum).Nodup) := by
  obtain ⟨p, hdegree, hdb, hkey⟩ := hdb
  constructor
  · rintro ⟨hpanic, _⟩ hlength hsize
    by_contra hrepeated
    obtain ⟨message, hstop⟩ := signMessage_panics hdb hkey hlength hdecodes hsize hrepeated draws
    exact hpanic message hstop
  · intro hdistinct
    rcases run_handle_sign_cases hdegree hdb hkey hdistinct draws with
      ⟨e, after, hrun⟩ | ⟨msg, db', faults, hmsg, hsize, hrun, hnetworks⟩
    · have herror := signMessage_eq_error hrun
      refine ⟨?_, fun response db' hok => ?_⟩
      · rw [herror]
        exact nofun
      · rw [hok] at herror
        cases herror
    · obtain ⟨answer, hanswer, hresult⟩ := signMessage_eq_ok hrun
      have hhex := List.singleton_inj.mp (Prod.mk.inj hresult).2
      refine ⟨?_, fun response db'' hok => ⟨hsize, ?_⟩⟩
      · rw [hanswer]
        exact Outcome.noPanic_ok _
      · cases hanswer.symm.trans hok
        rw [← hhex]
        exact verifySignature_succeeds (hkey.of_eq hnetworks) hmsg

end Signing

/-- A request to the network of two nodes. -/
def signWith (quorum : List ParticipantId) : SignRequest := ⟨"01", quorum⟩

def onceDraws : SignDraws := ⟨fun _ => 1, fun _ => ⟨1, 0⟩, "tx", "", ""⟩

omit [Curve] in
/-- Both nodes sign; the node 9 does not exist. -/
theorem signs_safely_two_nodes :
    letI := exponentCurve
    letI := plainCipher
    SignsSafely "a" 1 (signWith [2, 9, 1]) onceDraws twoNodeKeys.2 := by
  let := exponentCurve
  let := plainCipher
  have hdecodes : Decodes "01" := ⟨[1], by decide +kernel⟩
  exact (signs_safely_iff keysConsistent_two_nodes hdecodes).mpr fun _ _ => by decide +kernel

/-- The first node is requested twice. -/
def repeatedRun : Except (Fault ApiError) SignResponse × Db :=
  letI := exponentCurve
  letI := plainCipher
  (signMessage "a" (signWith [1, 1]) onceDraws).run exec twoNodeKeys.2

omit [Curve] in
/-- A node that is listed twice makes the signing panic. -/
theorem repeated_node_panics :
    letI := exponentCurve
    letI := plainCipher
    KeysConsistent twoNodeKeys.2 "a" 2 1 ∧
      ¬ SignsSafely "a" 1 (signWith [1, 1]) onceDraws twoNodeKeys.2 := by
  let := exponentCurve
  let := plainCipher
  refine ⟨keysConsistent_two_nodes, fun hsafe => ?_⟩
  have hpanic : Outcome.isPanic repeatedRun.1 = true := by decide +kernel
  exact Outcome.not_noPanic_of_isPanic hpanic hsafe.1

end Sigimora.Server
