import Sigimora.Server.Lifecycle
import Sigimora.Server.TraceRoute

/-!
# To whom signers are disclosed

Tracing is meant for the holder of a network's tracking key. The handler never
compares the key with the stored one, nor the network of the transaction with
the one in the request, so that signers are disclosed to the holder exactly when
the request happens to come from the holder, or discloses nobody.
-/

namespace Sigimora.Server

open Handler Program

variable [Curve] [JsonIds] {db : Db} {networkId : String} {req : TraceRequest}

/-- The node belongs to the network of the transaction, and the transaction lists it. -/
def TookPart (tx : SignedTxRow) (row : NodeRow) : Prop :=
  row.networkId = tx.networkId ∧ UInt16.ofNat row.nodeId ∈ recordedQuorum tx

/-- The key is the tracking key of the network, and the transaction belongs to the network. -/
def Entitled (networkId : String) (net : NetworkRow) (key : Scalar) (tx : SignedTxRow) : Prop :=
  net.trackingPk = some (key • (G2Point.generator : G2Point)).toBytes ∧ tx.networkId = networkId

/-- Signers are disclosed only to the holder of the tracking key, for a transaction of
the network, and each of them is a node of the network that took part. -/
def DisclosesToHolder (db : Db) (networkId : String) (req : TraceRequest) : Prop :=
  ∀ response db', (traceSigners networkId req).run exec db = (.ok response, db') →
    response.signers ≠ [] →
    ∃ net key tx, db.getNetwork networkId = some net ∧
      decodeTrackingKey req.trackingKeyHex = .ok key ∧ db.getSignedTx req.txId = some tx ∧
      Entitled networkId net key tx ∧
      ∀ signer ∈ response.signers, ∃ row ∈ db.nodes, row.networkId = networkId ∧
        TookPart tx row ∧ signer.publicKeyHex = ByteString.hexEncode row.publicKey

/-! ## Members and rows -/

section Members

variable {rows : List NodeRow} {memberPks : List (ParticipantId × G2Point)}
  {quorum : List ParticipantId}

omit [JsonIds] in
/-- A decoded member carries the id and the key of its row. -/
theorem decodeMemberPk_eq_ok {row : NodeRow} {member : ParticipantId × G2Point}
    (h : decodeMemberPk row = .ok member) :
    member.1 = UInt16.ofNat row.nodeId ∧ member.2.toBytes = row.publicKey := by
  obtain ⟨pk, hpk, hmember⟩ := Outcome.bind_eq_ok.mp h
  cases hmember
  unfold decodeStoredPk at hpk
  split at hpk
  · cases hpk
  · exact ⟨rfl, G2Point.fromBytes_eq_ok_iff.mp (Outcome.mapErr_eq_ok_iff.mp hpk)⟩

omit [JsonIds] in
/-- Every listed signer is a listed row, with the key of the row. -/
theorem row_of_mem_listedSigners (hmembers : rows.mapM decodeMemberPk = .ok memberPks)
    {signer : SignerInfo} (h : signer ∈ listedSigners quorum memberPks) :
    ∃ row ∈ rows, UInt16.ofNat row.nodeId ∈ quorum ∧
      signer.publicKeyHex = ByteString.hexEncode row.publicKey := by
  obtain ⟨id, hid, hfound⟩ := List.mem_filterMap.mp h
  obtain ⟨member, hfind, rfl⟩ := Option.map_eq_some_iff.mp hfound
  have hmember : member ∈ memberPks := List.mem_of_find?_eq_some hfind
  have hmatch : member.1 = id := by simpa using List.find?_some hfind
  obtain ⟨row, hrow, hdecode⟩ := (Outcome.mem_of_mapM_eq_ok hmembers).mp hmember
  obtain ⟨hrowId, hbytes⟩ := decodeMemberPk_eq_ok hdecode
  refine ⟨row, hrow, ?_, ?_⟩
  · rwa [← hrowId, hmatch]
  · rw [hbytes]

omit [JsonIds] in
/-- Somebody is listed exactly when some row is. -/
theorem listedSigners_ne_nil_iff (hmembers : rows.mapM decodeMemberPk = .ok memberPks) :
    listedSigners quorum memberPks ≠ [] ↔ ∃ row ∈ rows, UInt16.ofNat row.nodeId ∈ quorum := by
  constructor
  · intro h
    obtain ⟨signer, hsigner⟩ := List.exists_mem_of_ne_nil _ h
    obtain ⟨row, hrow, hlisted, _⟩ := row_of_mem_listedSigners hmembers hsigner
    exact ⟨row, hrow, hlisted⟩
  · rintro ⟨row, hrow, hlisted⟩
    obtain ⟨member, hdecode⟩ := Outcome.exists_of_mapM_eq_ok hmembers hrow
    have hmember : member ∈ memberPks :=
      (Outcome.mem_of_mapM_eq_ok hmembers).mpr ⟨row, hrow, hdecode⟩
    have hid := (decodeMemberPk_eq_ok hdecode).1
    have hfind : (memberPks.find? fun m => m.1 = UInt16.ofNat row.nodeId).isSome := by
      rw [List.find?_isSome]
      exact ⟨member, hmember, decide_eq_true hid⟩
    obtain ⟨found, hfound⟩ := Option.isSome_iff_exists.mp hfind
    have hsigner : { nodeId := UInt16.ofNat row.nodeId
                     publicKeyHex := ByteString.hexEncode found.2.toBytes
                     timestamp := none } ∈ listedSigners quorum memberPks :=
      List.mem_filterMap.mpr ⟨_, hlisted, by rw [hfound, Option.map_some]⟩
    exact List.ne_nil_of_mem hsigner

end Members

/-! ## The disclosure -/

/-- **Disclosure.** The request is answered as it should be exactly when it comes from
the holder of the tracking key and asks for a transaction of the network, or when
it is refused or no recorded signer is a node of the network. -/
theorem disclosesToHolder_iff :
    DisclosesToHolder db networkId req ↔
      ∀ net key tx memberPks, TraceReads db networkId req net key tx memberPks →
        (∃ row ∈ db.getNodesByNetwork networkId, UInt16.ofNat row.nodeId ∈ recordedQuorum tx) →
        Entitled networkId net key tx := by
  constructor
  · intro h net key tx memberPks hreads hlisted
    have hrun := run_traceSigners_eq_ok.mpr ⟨rfl, net, key, tx, memberPks, hreads, rfl⟩
    obtain ⟨net', key', tx', hnet, hkey, htx, hentitled, _⟩ :=
      h _ _ hrun ((listedSigners_ne_nil_iff hreads.members).mpr hlisted)
    cases hreads.network.symm.trans hnet
    cases hreads.trackingKey.symm.trans hkey
    cases hreads.signedTx.symm.trans htx
    exact hentitled
  · intro h response db' hrun hsome
    obtain ⟨rfl, net, key, tx, memberPks, hreads, rfl⟩ := run_traceSigners_eq_ok.mp hrun
    have hentitled := h net key tx memberPks hreads
      ((listedSigners_ne_nil_iff hreads.members).mp hsome)
    refine ⟨net, key, tx, hreads.network, hreads.trackingKey, hreads.signedTx, hentitled, ?_⟩
    intro signer hsigner
    obtain ⟨row, hrow, hlisted, hkey⟩ := row_of_mem_listedSigners hreads.members hsigner
    obtain ⟨hmem, hnetwork⟩ := Db.mem_getNodesByNetwork.mp hrow
    exact ⟨row, hmem, hnetwork, ⟨hnetwork.trans hentitled.2.symm, hlisted⟩, hkey⟩

/-- Both nodes of the network of two nodes have signed the byte `01`. -/
def twoNodeSigned : Except (Fault ApiError) SignResponse × Db :=
  letI := exponentCurve
  letI := plainCipher
  (signMessage "a" ⟨"01", [1, 2]⟩ ⟨fun _ => (5 : ℕ), fun _ => ⟨1, 0⟩, "tx", "", ""⟩).run
    exec twoNodeKeys.2

/-- Reading the JSON of the ids 1 and 2. -/
@[reducible] def bothIds : JsonIds where
  fromStr text := if text = "[1,2]" then some [1, 2] else none

/-- The answer to a trace with a key that is not the tracking key. -/
def traceWithWrongKey : Except (Fault ApiError) TraceResponse × Db :=
  letI := exponentCurve
  letI := bothIds
  (traceSigners "a" ⟨"tx", ByteString.hexEncode (Scalar.toBytes (7 : ℕ))⟩).run exec twoNodeSigned.2

omit [Curve] [JsonIds] in
/-- The tracking key of the network is 1, and the key 7 is told both signers. -/
theorem wrong_key_discloses :
    letI := exponentCurve
    letI := bothIds
    ¬ DisclosesToHolder twoNodeSigned.2 "a" ⟨"tx", ByteString.hexEncode (Scalar.toBytes 7)⟩ := by
  let := exponentCurve
  let := bothIds
  have hanswered : traceWithWrongKey.1.isOk = true := by decide +kernel
  have hsigners : (traceWithWrongKey.1.toOption.map fun response =>
      response.signers.map SignerInfo.nodeId) = some [1, 2] := by
    decide +kernel
  have htracking : (twoNodeSigned.2.getNetwork "a").bind NetworkRow.trackingPk ≠
      some ((7 : Scalar) • (G2Point.generator : G2Point)).toBytes := by
    decide +kernel
  have hdecoded : decodeTrackingKey (ByteString.hexEncode (Scalar.toBytes 7)) = .ok 7 := by
    decide +kernel
  obtain ⟨response, hresponse⟩ := exists_ok_of_isOk hanswered
  rw [hresponse] at hsigners
  intro h
  obtain ⟨net, key, tx, hnet, hkey, _, hentitled, _⟩ := h response _ hresponse (by
    rintro hnone
    rw [Except.toOption, Option.map_some, hnone] at hsigners
    cases hsigners)
  cases hdecoded.symm.trans hkey
  rw [hnet, Option.bind_some] at htracking
  exact htracking hentitled.1

end Sigimora.Server
