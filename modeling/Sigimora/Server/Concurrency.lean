import Sigimora.Server.Interleaving
import Sigimora.Server.Lifecycle

/-!
# Keys and signatures under concurrency

When the order of the statements leaves all rows in one epoch of the stored key,
the stored keys are consistent, and a signer that has read such rows signs
validly. The handlers neither lock nor check for other requests, and the
counterexamples show orders in which a refresh undoes a key generation and a
signer combines the shares of one key with another public key.
-/

namespace Sigimora.Server

open Handler Program

variable [Curve] [Cipher] {ι : Type} [DecidableEq ι] {n t : ℕ} {networkId : String} {db : Db}

/-! ## Stored keys -/

omit [Cipher] in
/-- Consistent keys interpolate. -/
theorem KeysConsistent.keysInterpolate (h : KeysConsistent db networkId n t) :
    KeysInterpolate db networkId n t := by
  obtain ⟨p, hdegree, hrows, net, hnet, hstate, hpk⟩ := h
  obtain ⟨stored, hstored, hn, ht, _⟩ := hrows.network
  cases hnet.symm.trans hstored
  refine ⟨net, _, p.eval 0, hnet, ⟨hn, ht, hstate, hpk⟩, hrows.rows, ?_⟩
  intro ids hnodup _ hlength
  exact Shamir.lagrangeCombination_eval hnodup (by rwa [hlength]) fun id _ => rfl

omit [Cipher] in
/-- The shares that are stored at the start define the initial epoch. -/
theorem KeysInterpolate.exists_tracked (h : KeysInterpolate db networkId n t)
    (requests : ι → Request) :
    ∃ share₀ sk₀, Tracked n t requests share₀ sk₀ networkId [] db ∧
      Interpolation.Interpolates (Shamir.nodes (participants n)) (t + 1)
        (fun x => share₀ (Shamir.idOf x)) sk₀ := by
  obtain ⟨net, share₀, sk₀, hnet, hkey, hrows, hcombine⟩ := h
  exact ⟨share₀, sk₀, Tracked.start hnet hkey hrows, Shamir.interpolates_iff.mpr hcombine⟩

/-- **Concurrent key requests.** After every interleaving that leaves the rows of
all nodes in one epoch of the stored key, the stored shares interpolate to the
secret of the stored key. -/
theorem keys_interpolate_of_oneEpoch (h : KeysInterpolate db networkId n t)
    {requests : ι → Request} {schedule : List ι} {c}
    (hrun : sideBySide networkId requests db schedule = c)
    (horder : OneEpoch (participants n) (Provenance.after t requests c.log).row
      (Provenance.after t requests c.log).key) :
    KeysInterpolate c.store networkId n t := by
  obtain ⟨share₀, sk₀, hstart, hinterpolates⟩ := h.exists_tracked requests
  obtain ⟨htracked, _⟩ := hstart.sideBySide schedule
  rw [hrun] at htracked
  obtain ⟨net, hnet, hkey⟩ := htracked.network
  obtain ⟨epoch, horigin, hepoch⟩ := horder
  rw [← horigin] at hkey
  refine ⟨net, epoch.share n t (fun i => (requests i).coins) share₀, _, hnet, hkey,
    htracked.rows.congr fun id hid => by rw [hepoch id hid], ?_⟩
  exact Shamir.interpolates_iff.mp (epoch.interpolates hinterpolates)

/-! ### Two nodes -/

omit [Cipher] in
/-- Rows that all hold one share belong to the key of that share. -/
theorem KeysInterpolate.collectivePk_of_const (h : KeysInterpolate db networkId n t)
    {s : Scalar} (hrows : RowsHold (db.getNodesByNetwork networkId) n fun _ => s)
    (hcard : t + 1 ≤ (participants n).length) :
    ∃ net, db.getNetwork networkId = some net ∧
      net.collectivePk = some (s • (G2Point.generator : G2Point)).toBytes := by
  obtain ⟨net, share, sk, hnet, hkey, hshares, hcombine⟩ := h
  let ids := (participants n).take (t + 1)
  have hnodup : ids.Nodup := (nodup_participants n).sublist (List.take_sublist _ _)
  have hlength : ids.length = t + 1 := by rw [List.length_take, min_eq_left hcard]
  have hcombined := hcombine ids hnodup (fun id hid => List.mem_of_mem_take hid) hlength
  have hdegree : (Polynomial.C s).degree < (ids.length : WithBot ℕ) := by
    rw [hlength]
    exact lt_of_le_of_lt Polynomial.degree_C_le (by exact_mod_cast Nat.succ_pos t)
  have hvalue : ∀ id ∈ ids, share id = (Polynomial.C s).eval (Scalar.ofId id) := by
    intro id hid
    rw [Polynomial.eval_C]
    exact hshares.eq_of_mem hrows (List.mem_of_mem_take hid)
  have hconst := Shamir.lagrangeCombination_eval (ε := CryptoError) hnodup hdegree hvalue
  rw [Polynomial.eval_C, hcombined, Except.ok.injEq] at hconst
  exact ⟨net, hnet, by rw [hkey.collectivePk, hconst]⟩

/-- A key generation on the network of two nodes beside another request. -/
def besideDkg (other : Request) : Bool → Request
  | false => .key (.dkg fun _ _ => 5)
  | true => other

omit [Curve] [Cipher] in
/-- The keys of a network of two nodes interpolate its collective key. -/
theorem keysInterpolate_two_nodes :
    letI := exponentCurve
    KeysInterpolate twoNodeKeys.2 "a" 2 1 := by
  let := exponentCurve
  exact keysConsistent_two_nodes.keysInterpolate

omit [Curve] [Cipher] in
/-- A key generation that starts before a refresh and writes after it. -/
theorem keys_interpolate_dkg_last :
    letI := exponentCurve
    letI := plainCipher
    let c := sideBySide "a" (besideDkg (.key (.refresh fun _ _ => 2))) twoNodeKeys.2
      [false, true, true, false, true, true, true, true, false, false, false]
    KeysInterpolate c.store "a" 2 1 := by
  let := exponentCurve
  let := plainCipher
  intro c
  exact keys_interpolate_of_oneEpoch keysInterpolate_two_nodes (c := c) rfl
    ⟨.dkg false, by decide +kernel, List.forall_iff_forall_mem.mp (by decide +kernel)⟩

omit [Curve] [Cipher] in
/-- A refresh that has read the shares before a key generation and writes them
back after it: the stored key is the new one, the stored shares are the old ones. -/
theorem refresh_undoes_dkg :
    letI := exponentCurve
    letI := plainCipher
    let c := sideBySide "a" (besideDkg (.key (.refresh fun _ _ => 2))) twoNodeKeys.2
      [true, true, false, false, false, false, false, true, true, true, true]
    KeysInterpolate twoNodeKeys.2 "a" 2 1 ∧ (∀ i, (c.programs i).value?.isSome = true) ∧
      ¬ KeysInterpolate c.store "a" 2 1 := by
  let := exponentCurve
  let := plainCipher
  intro c
  refine ⟨keysInterpolate_two_nodes, ?_, ?_⟩
  · intro i
    cases i <;> decide +kernel
  · intro h
    have hrows : RowsHold (c.store.getNodesByNetwork "a") 2 fun _ => 2 := by
      rw [RowsHold, List.forall₂_iff_get]
      decide +kernel
    obtain ⟨net, hnet, hpk⟩ := h.collectivePk_of_const hrows (by decide +kernel)
    have hstored : (c.store.getNetwork "a").bind NetworkRow.collectivePk =
        some ((10 : Scalar) • (G2Point.generator : G2Point)).toBytes := by
      decide +kernel
    rw [hnet, Option.bind_some, hpk] at hstored
    revert hstored
    decide +kernel

/-! ## Signatures -/

/-- The signature verifies for the message under the key. -/
def Verifies (pk : G2Point) (msg : List UInt8) (sig : G1Point) : Prop :=
  ctVerifyBlsSignature sig (Ats.hashMessage msg) pk = true

/-- Every signature that a request has returned or recorded verifies under the
collective key that it has read. -/
def SignaturesValid (request : Request) (h : List (Event Reply)) (response : request.Response) :
    Prop :=
  ∃ net pk, networkRead h = some net ∧ net.collectivePk = some pk.toBytes ∧
    (∀ event ∈ h, Records (Verifies pk) event.stmt) ∧
    Returns (Verifies pk) (request.returned response)

omit [Cipher] in
/-- What is recorded from some signatures is recorded from more of them. -/
theorem Records.mono {S T : List UInt8 → G1Point → Prop}
    (hST : ∀ msg sig, S msg sig → T msg sig) {s : Stmt} (h : Records S s) : Records T s := by
  cases s with
  | insertLedgerEntry entry =>
    obtain ⟨msg, sig, hsig, hrest⟩ := h
    exact ⟨msg, sig, hST msg sig hsig, hrest⟩
  | insertSignedTx tx =>
    obtain ⟨sig, hsig, hrest⟩ := h
    exact ⟨sig, hST _ sig hsig, hrest⟩
  | _ => trivial

/-- Signers whose rows are in one epoch of the key that they have read sign validly. -/
theorem SignedFrom.verifies {net : NetworkRow} {rows : List NodeRow} {quorum : List ParticipantId}
    {ltSks : ℕ → Scalar} {msg : List UInt8} {sig : G1Point} {sk : Scalar}
    {share value : ParticipantId → Scalar} (h : SignedFrom net rows quorum ltSks msg sig)
    (hkey : StoredKey net n t sk) (hrows : RowsHold rows n share)
    (hshare : ∀ id ∈ quorum, id ∈ participants n → share id = value id)
    (hinterpolates : Interpolation.Interpolates (Shamir.nodes (participants n)) (t + 1)
      (fun x => value (Shamir.idOf x)) sk) (hnodup : quorum.Nodup) :
    Verifies (sk • G2Point.generator) msg sig := by
  obtain ⟨params, members, signers, tagDraws, result, hbuild, hselect, hsign, rfl⟩ := h
  obtain ⟨hthreshold, _, hmembers⟩ := buildParams_holds hkey.collectivePk hrows hbuild
  obtain ⟨hsize, hselected⟩ := selectQuorum_holds hmembers hselect
  rw [hkey.t_eq] at hthreshold hsize
  have hcard : t + 1 ≤ (Shamir.nodes (participants n)).card := by
    have hlength := congrArg List.length hselected
    rw [List.length_map, List.length_map] at hlength
    rw [hlength, ← Shamir.card_nodes (hnodup.filter _)] at hsize
    exact hsize.trans (Finset.card_le_card
      (Shamir.nodes_subset fun id hid => of_decide_eq_true (List.mem_filter.mp hid).2))
  obtain ⟨p, hdegree, hzero, hvalue⟩ := hinterpolates.exists_polynomial (Nat.succ_pos t) hcard
    (Shamir.zero_notMem_nodes fun id hid => ne_zero_of_mem_participants hid)
  have hpoly : ∀ id ∈ quorum, id ∈ participants n → share id = p.eval (Scalar.ofId id) := by
    intro id hid hmem
    rw [hshare id hid hmem, hvalue _ (Shamir.mem_nodes.mpr ⟨id, hmem, rfl⟩), Shamir.idOf_ofId]
  obtain ⟨made, hmade, hsig⟩ := signWithQuorum_selected (by omega) (hthreshold ▸ hsize)
    (hthreshold ▸ hdegree) hnodup hselected hpoly msg tagDraws
  cases hsign.symm.trans hmade
  rw [Verifies, ctVerifyBlsSignature_smul_iff, hsig, hzero]

/-- **Concurrent signers.** A signer that has read its quorum's rows in one epoch
of the key that it has read returns and records only valid signatures. -/
theorem signatures_valid_of_oneEpoch (h : KeysInterpolate db networkId n t)
    {requests : ι → Request} {schedule : List ι} {c}
    (hrun : sideBySide networkId requests db schedule = c) {i : ι}
    (hsigner : (requests i).isSigner = true) (hnodup : (requests i).quorum.Nodup)
    {response : (requests i).Response} (hfinish : (c.programs i).value? = some response)
    (horder : OneEpoch ((requests i).quorum.filter fun id => id ∈ participants n)
      ((Provenance.after t requests c.log).rowsRead i)
      ((Provenance.after t requests c.log).keyRead i)) :
    SignaturesValid (requests i) (history i c.log) response := by
  obtain ⟨share₀, sk₀, hstart, hinterpolates⟩ := h.exists_tracked requests
  obtain ⟨htracked, hmeets⟩ := hstart.sideBySide schedule
  rw [hrun] at htracked hmeets
  have hmade := hmeets i
  rw [value?_eq_some.mp hfinish, meets_ok] at hmade
  obtain ⟨net, rows, ⟨⟨done, hhistory⟩, hrecords⟩, hreturns⟩ := hmade hsigner
  have hnet : networkRead (history i c.log) = some net := by
    rw [← hhistory]
    rfl
  have hrows : nodesRead (history i c.log) = some rows := by
    rw [← hhistory]
    rfl
  have hkey := htracked.networkRead i net hnet
  obtain ⟨epoch, horigin, hepoch⟩ := horder
  rw [← horigin] at hkey
  have hverifies (msg : List UInt8) (sig : G1Point)
      (hsigned : SignedFrom net rows (requests i).quorum (requests i).ltSks msg sig) :=
    hsigned.verifies hkey (htracked.nodesRead i rows hrows) (fun id hid hmem => by
      rw [hepoch id (List.mem_filter.mpr ⟨hid, decide_eq_true hmem⟩)])
      (epoch.interpolates hinterpolates) hnodup
  refine ⟨net, _, hnet, hkey.collectivePk, fun event hevent =>
    (hrecords event hevent).mono hverifies, ?_⟩
  intro entry hentry
  obtain ⟨msg, sig, hsigned, hrest⟩ := hreturns entry hentry
  exact ⟨msg, sig, hverifies msg sig hsigned, hrest⟩

/-! ### Two nodes -/

/-- Both nodes sign the byte `01`. -/
def signWithBoth : Request := .sign ⟨"01", [1, 2]⟩ ⟨fun _ => 5, fun _ => ⟨1, 0⟩, "tx", "", ""⟩

omit [Curve] [Cipher] in
/-- A signer that reads its rows before a key generation and records its
signature after it. -/
theorem signatures_valid_before_dkg :
    letI := exponentCurve
    letI := plainCipher
    let c := sideBySide "a" (besideDkg signWithBoth) twoNodeKeys.2
      [true, false, false, true, false, false, false, true, true]
    ∃ response : SignResponse, (c.programs true).value? = some response ∧
      SignaturesValid signWithBoth (history true c.log) response := by
  let := exponentCurve
  let := plainCipher
  intro c
  have hfinished : (c.programs true).value?.isSome = true := by decide +kernel
  have hnodup : (besideDkg signWithBoth true).quorum.Nodup := List.nodup_cons.mpr (by decide)
  obtain ⟨response, hresponse⟩ := Option.isSome_iff_exists.mp hfinished
  exact ⟨response, hresponse, signatures_valid_of_oneEpoch keysInterpolate_two_nodes (c := c) rfl
    (i := true) rfl hnodup hresponse
    ⟨.initial, by decide +kernel, List.forall_iff_forall_mem.mp (by decide +kernel)⟩⟩

omit [Curve] [Cipher] in
/-- A signer that reads the collective key before a key generation and the shares
after it returns a signature that does not verify under the key it has read. -/
theorem signer_mixes_keys :
    letI := exponentCurve
    letI := plainCipher
    let c := sideBySide "a" (besideDkg signWithBoth) twoNodeKeys.2
      [true, false, false, false, false, false, true, true, true]
    KeysInterpolate twoNodeKeys.2 "a" 2 1 ∧
      ∃ response : SignResponse, (c.programs true).value? = some response ∧
        ¬ SignaturesValid signWithBoth (history true c.log) response := by
  let := exponentCurve
  let := plainCipher
  intro c
  have hsig : (c.programs true).value?.map SignResponse.combinedSigHex =
      some (ByteString.hexEncode ((10 : Scalar) • Ats.hashMessage [1] : G1Point).toBytes) := by
    decide +kernel
  obtain ⟨response, hresponse, hhex⟩ := Option.map_eq_some_iff.mp hsig
  refine ⟨keysInterpolate_two_nodes, response, hresponse, ?_⟩
  rintro ⟨net, pk, hnet, hpk, _, hreturns⟩
  have hread : (networkRead (history true c.log)).bind NetworkRow.collectivePk =
      some ((2 : Scalar) • (G2Point.generator : G2Point)).toBytes := by
    decide +kernel
  rw [hnet, Option.bind_some, hpk, Option.some.injEq] at hread
  have hkey := congrArg G2Point.fromBytes hread
  rw [G2Point.fromBytes_toBytes, G2Point.fromBytes_toBytes, Except.ok.injEq] at hkey
  obtain ⟨msg, sig, hverifies, hmsg, hreturned⟩ := hreturns _ (List.mem_singleton.mpr rfl)
  have hdecoded : ByteString.hexDecode "01" = .ok [1] := by decide +kernel
  cases hdecoded.symm.trans hmsg
  have hbytes := congrArg ByteString.hexDecode (hhex.symm.trans hreturned)
  rw [ByteString.hexDecode_hexEncode, ByteString.hexDecode_hexEncode, Except.ok.injEq] at hbytes
  have hpoint := congrArg G1Point.fromBytes hbytes
  rw [G1Point.fromBytes_toBytes, G1Point.fromBytes_toBytes, Except.ok.injEq] at hpoint
  rw [Verifies, hkey, ← hpoint, ctVerifyBlsSignature_smul_iff] at hverifies
  revert hverifies
  decide +kernel

end Sigimora.Server
