import Sigimora.Math.ExponentCurve
import Sigimora.Server.KeyRequests
import Sigimora.Server.Quorum

/-!
# The life of a network

Requests that are executed one after another. From consistent keys every
sufficient quorum signs, with the same result, and the result verifies.
-/

namespace Sigimora.Server

open Handler Program

variable [Curve] {db db' : Db} {networkId : String} {n t : ℕ}

/-! ## Signing and verifying -/

/-- A sufficient quorum of a network with consistent keys signs with the secret
of the collective key. -/
theorem signMessage_succeeds [Cipher] {p : Polynomial Scalar} (hn : n ≤ 65535)
    (hdegree : p.degree < (t + 1 : ℕ))
    (hdb : Provisioned db networkId n t fun id => p.eval (Scalar.ofId id))
    (hkey : CollectiveKey db networkId (p.eval 0)) (req : SignRequest) {msg : List UInt8}
    (hmsg : ByteString.hexDecode req.message = .ok msg) (hnodup : req.quorum.Nodup)
    (hsize : t + 1 ≤ (req.quorum.filter fun id => id ∈ participants n).length)
    {draws : SignDraws} (hfresh : draws.message.txId ∉ db.signedTxs.map SignedTxRow.txId) :
    ∃ response db', (signMessage networkId req draws).run exec db = (.ok response, db') ∧
      response.combinedSigHex =
        ByteString.hexEncode (p.eval 0 • Ats.hashMessage msg : G1Point).toBytes ∧
      db'.networks = db.networks := by
  obtain ⟨net, hnet, hstate, hpk⟩ := hkey
  obtain ⟨stored, hstored, rfl, rfl, trackingPk, htracking⟩ := hdb.network
  cases hnet.symm.trans hstored
  have hlength : (db.getNodesByNetwork networkId).length = net.n := by
    rw [hdb.rows.length_eq, length_participants hn]
  have hchecked : checkSignable net req.quorum = .ok () := by
    have henough := hsize.trans (List.length_filter_le _ req.quorum)
    rw [checkSignable, if_neg (not_not.mpr hstate), if_neg (by omega)]
  have hdecoded : decodeMessage (fun e => s!"invalid hex message: {e}") req.message = .ok msg := by
    rw [decodeMessage, hmsg]
  obtain ⟨params, members, hbuild⟩ :=
    buildParams_exists draws.ltSks hpk htracking hdb.rows hdb.publicKeys
  obtain ⟨hthreshold, _, hmembers⟩ := buildParams_holds hpk hdb.rows hbuild
  obtain ⟨signers, hselect⟩ := selectQuorum_exists hmembers hsize
  obtain ⟨hsigners, hpairs⟩ := selectQuorum_holds hmembers hselect
  obtain ⟨sig, hsign, hsig⟩ := signWithQuorum_selected (by omega) (by omega)
    (hthreshold ▸ hdegree) hnodup hpairs (fun _ _ _ => rfl) msg draws.message.tag
  obtain ⟨ledger, hledger, hnetworks, _, htxs, _⟩ := Db.insertLedgerEntry_exists db
    (ledgerRow networkId req.quorum msg sig draws.message) (Db.mem_networks_of_getNetwork hnet)
  obtain ⟨final, hfinal, hnetworks', _⟩ := Db.insertSignedTx_exists ledger
    (signedTxRow networkId req.quorum msg sig draws.message) (by rwa [htxs])
    (by rw [hnetworks]; exact Db.mem_networks_of_getNetwork hnet)
  have hrecord : (recordSignature networkId req.quorum msg sig draws.message).run exec db =
      (.ok (), final) :=
    run_bind_eq_ok.mpr ⟨(), ledger, run_query_eq_ok.mpr hledger, run_query_eq_ok.mpr hfinal⟩
  refine ⟨{
    txId := draws.message.txId
    combinedSigHex := ByteString.hexEncode sig.combinedSig.toBytes
    quorum := req.quorum
    messageHashHex := ByteString.hexEncode (Ats.hashMessage msg).toBytes }, final, ?_, ?_,
    hnetworks'.trans hnetworks⟩
  · refine run_bind_eq_ok.mpr ⟨net, db, run_fetchNetwork_eq_ok.mpr ⟨hnet, rfl⟩, ?_⟩
    refine run_bind_eq_ok.mpr ⟨(), db, run_lift_eq_ok hchecked, ?_⟩
    refine run_bind_eq_ok.mpr ⟨msg, db, run_lift_eq_ok hdecoded, ?_⟩
    refine run_bind_eq_ok.mpr ⟨_, db, run_loadNodes_eq_ok.mpr ⟨rfl, hlength, rfl⟩, ?_⟩
    refine run_bind_eq_ok.mpr ⟨(params, members), db, run_lift_eq_ok hbuild, ?_⟩
    refine run_bind_eq_ok.mpr ⟨signers, db, run_lift_eq_ok hselect, ?_⟩
    refine run_bind_eq_ok.mpr ⟨sig, db, run_lift_eq_ok hsign, ?_⟩
    exact run_bind_eq_ok.mpr ⟨(), final, hrecord, rfl⟩
  · rw [← hsig]

/-- Under the collective key of `sk` the multiple of the message point by `sk` verifies. -/
theorem verifySignature_succeeds {sk : Scalar} (hkey : CollectiveKey db networkId sk)
    {message : String} {msg : List UInt8} (hmsg : ByteString.hexDecode message = .ok msg) :
    (verifySignature networkId ⟨message,
        ByteString.hexEncode (sk • Ats.hashMessage msg : G1Point).toBytes⟩).run exec db =
      (.ok ⟨true, networkId⟩, db) := by
  obtain ⟨net, hnet, _, hpk⟩ := hkey
  have hdecoded : decodeMessage (fun e => s!"invalid hex message: {e}") message = .ok msg := by
    rw [decodeMessage, hmsg]
  have hsig : decodeSignature
      (ByteString.hexEncode (sk • Ats.hashMessage msg : G1Point).toBytes) =
      .ok (sk • Ats.hashMessage msg) := by
    rw [decodeSignature, decodeMessage, ByteString.hexDecode_hexEncode, Outcome.ok_bind,
      if_neg (by simp), G1Point.fromBytes_toBytes, Outcome.mapErr_ok]
  refine run_bind_eq_ok.mpr ⟨net, db, run_fetchNetwork_eq_ok.mpr ⟨hnet, rfl⟩, ?_⟩
  refine run_bind_eq_ok.mpr ⟨_, db, run_lift_eq_ok (decodeCollectivePk_eq_ok hpk), ?_⟩
  refine run_bind_eq_ok.mpr ⟨msg, db, run_lift_eq_ok hdecoded, ?_⟩
  refine run_bind_eq_ok.mpr ⟨_, db, run_lift_eq_ok hsig, ?_⟩
  rw [ctVerifyBlsSignature_smul_iff.mpr rfl]
  rfl

/-! ## The whole life -/

/-- **Key lifecycle.** After a network was created and any sequence of key
generations and refreshes, at least one of them a key generation, each message
has one signature that every sufficient quorum is answered with, and it
verifies. -/
theorem key_lifecycle [Cipher] {creation : CreateNetworkRequest} {draws : CreationDraws}
    {created : CreateNetworkResponse} {db₀ db₁ db₂ : Db}
    (hcreate : (createNetwork creation draws).run exec db₀ = (.ok created, db₁))
    {requests : List KeyRequest} (hdkg : ∃ coins, .dkg coins ∈ requests)
    (hrun : (requests.forM (KeyRequest.handle created.network.id)).run exec db₁ = (.ok (), db₂))
    {message : String} {msg : List UInt8} (hmsg : ByteString.hexDecode message = .ok msg) :
    ∃ sigHex, ∀ quorum : List ParticipantId, quorum.Nodup →
      creation.t + 1 ≤
        (quorum.filter fun id => 1 ≤ id.toNat ∧ id.toNat ≤ creation.n).length →
      ∀ signDraws : SignDraws,
        signDraws.message.txId ∉ db₂.signedTxs.map SignedTxRow.txId →
        ∃ response db₃,
          (signMessage created.network.id ⟨message, quorum⟩ signDraws).run exec db₂ =
            (.ok response, db₃) ∧
          response.combinedSigHex = sigHex ∧
          (verifySignature created.network.id ⟨message, response.combinedSigHex⟩).run exec db₃ =
            (.ok ⟨true, created.network.id⟩, db₃) := by
  obtain ⟨hid, _, ht, ⟨net, hnet, hstate⟩, hdb⟩ := createNetwork_provisioned hcreate
  rw [hid] at hrun
  obtain ⟨coins, hcoins⟩ := hdkg
  obtain ⟨hn, p, hdegree, hrows, hkey⟩ :=
    KeysConsistent.of_created ht.le hdb hnet hstate (List.ne_nil_of_mem hcoins) hrun
  refine ⟨ByteString.hexEncode (p.eval 0 • Ats.hashMessage msg : G1Point).toBytes, ?_⟩
  intro quorum hnodup hsize signDraws hfresh
  simp only [← mem_participants hn] at hsize
  obtain ⟨response, db₃, hsign, hsig, hnetworks⟩ := signMessage_succeeds hn hdegree hrows hkey
    ⟨message, quorum⟩ hmsg hnodup hsize hfresh
  rw [hid]
  refine ⟨response, db₃, hsign, hsig, ?_⟩
  rw [hsig]
  exact verifySignature_succeeds (hkey.of_eq hnetworks) hmsg

/-- The draws of a network of two nodes. -/
def twoNodeDraws : CreationDraws where
  networkId := "a"
  trackingSecret := 1
  nodeSecret := Scalar.ofId
  apiKey := ⟨[], "k", ""⟩
  networkCreatedAt := ""
  nodeCreatedAt _ := ""
  infoCreatedAt := ""

/-- The creation of a network with `n = 2` and `t = 1`. -/
def twoNodeCreation : Except (Fault ApiError) CreateNetworkResponse × Db :=
  letI := exponentCurve
  (createNetwork ⟨2, 1⟩ twoNodeDraws).run exec Db.empty

/-- A key generation and a refresh on it. -/
def twoNodeKeys : Except (Fault ApiError) Unit × Db :=
  letI := exponentCurve
  ([KeyRequest.dkg fun _ _ => 1, .refresh fun _ _ => 2].forM (KeyRequest.handle "a")).run exec
    twoNodeCreation.2

omit [Curve] in
/-- The keys of a network of two nodes are consistent. -/
theorem keysConsistent_two_nodes :
    letI := exponentCurve
    KeysConsistent twoNodeKeys.2 "a" 2 1 := by
  let := exponentCurve
  have hcreated : twoNodeCreation.1.isOk = true := by decide +kernel
  have hkeys : twoNodeKeys.1.isOk = true := by decide +kernel
  obtain ⟨created, hcreate⟩ := exists_ok_of_isOk hcreated
  obtain ⟨_, hrun⟩ := exists_ok_of_isOk hkeys
  obtain ⟨_, _, _, ⟨net, hnet, hstate⟩, hdb⟩ := createNetwork_provisioned hcreate
  exact (KeysConsistent.of_created (by decide) hdb hnet hstate (List.cons_ne_nil _ _) hrun).2

omit [Curve] in
/-- Both nodes sign, the second one first; the node 9 does not exist. -/
theorem key_lifecycle_two_nodes :
    letI := exponentCurve
    letI := plainCipher
    ∃ response db₃,
      (signMessage "a" ⟨"01", [2, 9, 1]⟩ ⟨fun _ => 5, fun _ => ⟨1, 0⟩, "tx", "", ""⟩).run exec
        twoNodeKeys.2 = (.ok response, db₃) ∧
      (verifySignature "a" ⟨"01", response.combinedSigHex⟩).run exec db₃ =
        (.ok ⟨true, "a"⟩, db₃) := by
  let := exponentCurve
  let := plainCipher
  have hcreated : twoNodeCreation.1.isOk = true := by decide +kernel
  have hkeys : twoNodeKeys.1.isOk = true := by decide +kernel
  have hmsg : ByteString.hexDecode "01" = .ok [1] := by decide +kernel
  have hfresh : "tx" ∉ twoNodeKeys.2.signedTxs.map SignedTxRow.txId := by decide +kernel
  obtain ⟨created, hcreate⟩ := exists_ok_of_isOk hcreated
  obtain ⟨_, hloop⟩ := exists_ok_of_isOk hkeys
  have hcreate : (createNetwork ⟨2, 1⟩ twoNodeDraws).run exec Db.empty =
      (.ok created, twoNodeCreation.2) := hcreate
  have hid : created.network.id = "a" := (createNetwork_provisioned hcreate).1
  have hrun : ([KeyRequest.dkg fun _ _ => 1, .refresh fun _ _ => 2].forM
      (KeyRequest.handle created.network.id)).run exec twoNodeCreation.2 =
      (.ok (), twoNodeKeys.2) := by
    rw [hid]
    exact hloop
  obtain ⟨sigHex, hquorum⟩ := key_lifecycle hcreate
    ⟨_, List.mem_cons_self⟩ hrun hmsg
  obtain ⟨response, db₃, hsign, _, hverify⟩ := hquorum [2, 9, 1] (by decide) (by decide +kernel)
    ⟨fun _ => 5, fun _ => ⟨1, 0⟩, "tx", "", ""⟩ hfresh
  rw [hid] at hsign hverify
  exact ⟨response, db₃, hsign, hverify⟩

end Sigimora.Server
