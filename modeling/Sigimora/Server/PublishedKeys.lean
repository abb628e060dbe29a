import Sigimora.Ats.Tracing
import Sigimora.Server.Lifecycle
import Sigimora.Server.NetworkFrames
import Sigimora.Server.Signers

/-!
# Published keys of the members

The public parameters of a signing request list a key for each node, which is meant
to be the key of the share that the node signs with. The keys come from the column
that the creation of the network fills. A key generation and a refresh write shares
only. So the keys match exactly when every key generation deals the shares that the
stored keys belong to, and every refresh adds nothing.
-/

namespace Sigimora.Server

open Handler Program

variable [Curve]

/-! ## Rows with matching keys -/

/-- The public key of the node is the generator times its secret key. -/
def NodeRow.Matches (row : NodeRow) : Prop :=
  ∃ secret : Scalar, row.secretKey = secret.toBytes ∧
    row.publicKey = (secret • (G2Point.generator : G2Point)).toBytes

/-- After a key generation the keys of all nodes match. -/
def RowsMatch (db : Db) : Prop :=
  ∀ networkId net, db.getNetwork networkId = some net → net.state = "dkg_complete" →
    ∀ row ∈ db.getNodesByNetwork networkId, row.Matches

/-- A row matches just if its public key is that of its secret. -/
theorem NodeRow.matches_iff {row : NodeRow} {secret : Scalar}
    (hsecret : row.secretKey = secret.toBytes) :
    row.Matches ↔ row.publicKey = (secret • (G2Point.generator : G2Point)).toBytes := by
  constructor
  · rintro ⟨other, hother, hpublic⟩
    have hdecode := congrArg Scalar.fromBytes (hother.symm.trans hsecret)
    rw [Scalar.fromBytes_toBytes, Scalar.fromBytes_toBytes, Except.ok.injEq] at hdecode
    rwa [hdecode] at hpublic
  · intro hpublic
    exact ⟨secret, hsecret, hpublic⟩

/-- Matching is read from the key columns. -/
theorem forall_matches_of_keyColumns {rows rows' : List NodeRow}
    (h : rows'.map NodeRow.keyColumns = rows.map NodeRow.keyColumns)
    (hrows : ∀ row ∈ rows, row.Matches) : ∀ row ∈ rows', row.Matches := by
  intro row hrow
  have hcolumns : row.keyColumns ∈ rows.map NodeRow.keyColumns := h ▸ List.mem_map_of_mem hrow
  obtain ⟨old, hold, heq⟩ := List.mem_map.mp hcolumns
  obtain ⟨_, heq⟩ := Prod.mk.inj heq
  obtain ⟨hpublic, hsecret⟩ := Prod.mk.inj heq
  obtain ⟨secret, holdSecret, holdPublic⟩ := hrows old hold
  exact ⟨secret, hsecret.symm.trans holdSecret, hpublic.symm.trans holdPublic⟩

/-! ## Loaded members -/

/-- The signing keys of a loaded member are made from its share and a long-term secret. -/
theorem loadMember_config {row : NodeRow} {ltSk : Scalar} {m : Member}
    (h : loadMember row ltSk = .ok m) :
    m.config = Ats.SignerConfig.new m.id m.config.dkgShare m.config.ltSk := by
  obtain ⟨pk, _, h⟩ := Outcome.bind_eq_ok.mp h
  obtain ⟨share, _, h⟩ := Outcome.bind_eq_ok.mp h
  cases h
  rfl

/-- A member that is loaded from a row with matching keys has matching keys. -/
theorem loadMember_matches {row : NodeRow} {ltSk : Scalar} {m : Member} (hrow : row.Matches)
    (h : loadMember row ltSk = .ok m) : m.pk = m.config.dkgShare • G2Point.generator := by
  obtain ⟨secret, hsecret, hpublic⟩ := hrow
  rw [loadMember, decodeNodePk_eq_ok hpublic, decodeKeyShare_eq_ok hsecret] at h
  cases h
  rfl

/-- Members that sign with the shares of the participants are listed with their keys. -/
theorem validParams_of_matches {net : NetworkRow} {rows : List NodeRow} {ltSks : ℕ → Scalar}
    {params : Ats.NetworkPublicParams} {members : List Member} {p : Polynomial Scalar}
    (hdegree : p.degree < (net.t + 1 : ℕ))
    (hpk : net.collectivePk = some (p.eval 0 • (G2Point.generator : G2Point)).toBytes)
    (hrows : RowsHold rows net.n fun id => p.eval (Scalar.ofId id))
    (hmatches : ∀ row ∈ rows, row.Matches)
    (h : buildParams net rows ltSks = .ok (params, members)) :
    Ats.ValidParams params p ∧
      (∀ m ∈ members, m.config = Ats.SignerConfig.new m.id (p.eval (Scalar.ofId m.id))
        m.config.ltSk) := by
  obtain ⟨hthreshold, hcollective, hmembers⟩ := buildParams_holds hpk hrows h
  obtain ⟨_, _, hpks, _, hloaded⟩ := buildParams_eq_ok h
  have hfst : params.memberPks.map Prod.fst = participants net.n := by
    rw [hpks, List.map_map]
    exact hmembers.ids
  refine ⟨⟨by omega, hthreshold ▸ hdegree, hfst ▸ nodup_participants net.n, ?_, ?_, hcollective⟩,
    fun m hm => ?_⟩
  · intro entry hentry
    have hid : entry.1 ∈ participants net.n := hfst ▸ List.mem_map_of_mem hentry
    exact ne_zero_of_mem_participants hid
  · intro entry hentry
    rw [hpks] at hentry
    obtain ⟨m, hm, rfl⟩ := List.mem_map.mp hentry
    obtain ⟨row, hrow, ltSk, hload⟩ := Outcome.exists_of_forall₂ hloaded hm
    rw [← (hmembers.config hm).2]
    exact loadMember_matches (hmatches row hrow) hload
  · obtain ⟨row, _, ltSk, hload⟩ := Outcome.exists_of_forall₂ hloaded hm
    rw [← (hmembers.config hm).2]
    exact loadMember_config hload

/-- A selected signer is a member. -/
theorem mem_of_selectQuorum {t : ℕ} {quorum : List ParticipantId} {members : List Member}
    {signers : List Ats.SignerConfig} (h : selectQuorum t quorum members = .ok signers)
    {s : Ats.SignerConfig} (hs : s ∈ signers) : ∃ m ∈ members, m.config = s := by
  simp only [selectQuorum] at h
  split at h
  · cases h
  · cases h
    obtain ⟨qid, _, hfind⟩ := List.mem_filterMap.mp hs
    obtain ⟨m, hm, hconfig⟩ := Option.map_eq_some_iff.mp hfind
    exact ⟨m, List.mem_of_find?_eq_some hm, hconfig⟩

/-! ## Signatures -/

section Signatures

variable [Cipher] {params : Ats.NetworkPublicParams} {signers : List Ats.SignerConfig}
  {quorum : List ParticipantId} {msg : List UInt8} {tagDraws : ℕ → Ats.TagCoins}
  {sig : Ats.AtsSignature} {p : Polynomial Scalar}

/-- A signature is an aggregate of the partial signatures of different signers. -/
theorem aggregate_of_signWithQuorum (hsize : params.threshold ≤ signers.length)
    (h : signWithQuorum params signers quorum msg tagDraws = .ok sig) :
    (signers.map Ats.SignerConfig.nodeId).Nodup ∧ ∃ aggregatorId,
      Ats.aggregate (signers.zipIdx.map fun entry =>
        Ats.signPartial entry.1 msg params.trackingPk (tagDraws entry.2)) params 0 aggregatorId =
          .ok sig := by
  obtain ⟨first, hfirst, haggregate⟩ := Outcome.bind_eq_ok.mp h
  refine ⟨?_, first, Outcome.mapErr_eq_ok_iff.mp haggregate⟩
  by_contra hrepeated
  have hquorum : quorum ≠ [] := by
    rintro rfl
    cases hfirst
  rw [signWithQuorum_of_not_nodup hsize hrepeated hquorum] at h
  cases h

/-- The quorum key of different members is the collective key. -/
theorem quorumPk_eq (hparams : Ats.ValidParams params p)
    (hsize : params.threshold ≤ signers.length)
    (hmember : ∀ s ∈ signers, s.nodeId ∈ params.memberPks.map Prod.fst)
    (h : signWithQuorum params signers quorum msg tagDraws = .ok sig) :
    sig.membershipProof.quorumPk = params.collectivePk := by
  obtain ⟨hnodup, aggregatorId, haggregate⟩ := aggregate_of_signWithQuorum hsize h
  have hids := map_nodeId_signPartial signers msg params.trackingPk tagDraws
  rw [Ats.aggregate_eq_ok _ (by rw [List.length_map, List.length_zipIdx]; exact hsize)
    (by rw [hids]; exact hnodup), Except.ok.injEq] at haggregate
  have hpks : Ats.quorumPks params (signers.map Ats.SignerConfig.nodeId) =
      (signers.map Ats.SignerConfig.nodeId).map
        fun id => (id, p.eval (Scalar.ofId id) • G2Point.generator) :=
    Ats.quorumPks_eq hparams fun id hid => by
      obtain ⟨s, hs, rfl⟩ := List.mem_map.mp hid
      exact hmember s hs
  rw [← haggregate]
  simp only [hids, hpks, hparams.collectivePk]
  refine Shamir.weightedSum_smul hnodup ?_ ?_
  · rw [List.length_map]
    exact lt_of_lt_of_le hparams.degree_lt (by exact_mod_cast hsize)
  · rw [List.map_map]
    rfl

/-- The tracer finds all signers. -/
theorem trace_eq_signers (hparams : Ats.ValidParams params p)
    (hsize : params.threshold ≤ signers.length)
    (hsigners : ∀ s ∈ signers, s = Ats.SignerConfig.new s.nodeId (p.eval (Scalar.ofId s.nodeId))
      s.ltSk ∧ (s.nodeId, s.ltPk) ∈ params.memberLtPks)
    (hltPks : (params.memberLtPks.map Prod.snd).Nodup)
    (h : signWithQuorum params signers quorum msg tagDraws = .ok sig) {trackingSk : Scalar}
    (htracking : params.trackingPk = trackingSk • G2Point.generator) :
    Ats.trace trackingSk params msg sig = signers.map fun s => (s.nodeId, s.ltPk) := by
  obtain ⟨_, aggregatorId, haggregate⟩ := aggregate_of_signWithQuorum hsize h
  have hhonest : Ats.HonestParams params trackingSk fun id => p.eval (Scalar.ofId id) :=
    ⟨htracking, hparams.memberPks, hltPks⟩
  have hnames : ∀ entry ∈ signers.zipIdx, Ats.TagNames trackingSk params (Ats.hashMessage msg)
      (Ats.signPartial entry.1 msg params.trackingPk (tagDraws entry.2)).encryptedTag
      entry.1.nodeId entry.1.ltPk := by
    intro entry hentry
    obtain ⟨hconfig, hmem⟩ := hsigners entry.1 (List.fst_mem_of_mem_zipIdx hentry)
    have hltPk : entry.1.ltPk = entry.1.ltSk • G2Point.generator := congrArg _ hconfig
    let signer : Ats.Signer := ⟨entry.1.nodeId, entry.1.ltSk, tagDraws entry.2⟩
    have hmember : (signer.id, signer.ltSk • G2Point.generator) ∈ params.memberLtPks := hltPk ▸ hmem
    have hnames := Ats.tagNames_sign hhonest hmember msg
    rwa [Ats.Signer.sign, ← hconfig, ← hltPk] at hnames
  rw [Ats.trace_aggregate (fun entry => (entry.1.nodeId, entry.1.ltPk)) hnames haggregate]
  conv_rhs => rw [← List.zipIdx_map_fst 0 signers]
  rw [List.map_map]
  rfl

end Signatures

/-! ## What is published -/

/-- The published keys are those of the shares that the nodes sign with, so that the
parameters of signing requests mean what they say, the keys of a quorum combine to the
collective key and the tracer finds all signers. -/
structure PublishedKeys [Cipher] (db : Db) : Prop where
  rows : RowsMatch db
  memberPks : ∀ networkId net, db.getNetwork networkId = some net → net.state = "dkg_complete" →
    ∀ ltSks params members,
      buildParams net (db.getNodesByNetwork networkId) ltSks = .ok (params, members) →
      params.memberPks = members.map fun m => (m.id, m.config.dkgShare • G2Point.generator)
  quorumPk : ∀ networkId request params signers,
    SigningRequest.Prepares networkId db request params signers → ∀ msg tagDraws sig,
      signWithQuorum params signers request.quorum msg tagDraws = .ok sig →
      sig.membershipProof.quorumPk = params.collectivePk
  traced : ∀ networkId request params signers,
    SigningRequest.Prepares networkId db request params signers →
    (params.memberLtPks.map Prod.snd).Nodup → ∀ msg tagDraws sig,
      signWithQuorum params signers request.quorum msg tagDraws = .ok sig →
      ∀ trackingSk, params.trackingPk = trackingSk • G2Point.generator →
        Ats.trace trackingSk params msg sig = signers.map fun s => (s.nodeId, s.ltPk)

/-- Every network is provisioned, and once its keys were generated they are consistent. -/
def WellKept (db : Db) : Prop :=
  ∀ networkId net, db.getNetwork networkId = some net → net.t ≤ net.n ∧
    (∃ share, Provisioned db networkId net.n net.t share) ∧
    (net.state = "dkg_complete" → KeysConsistent db networkId net.n net.t)

section Published

variable [Cipher] {db : Db} {networkId : String}

omit [Cipher] in
/-- The polynomial of a network with consistent keys. -/
theorem KeysConsistent.exists_polynomial {net : NetworkRow}
    (h : KeysConsistent db networkId net.n net.t) (hnet : db.getNetwork networkId = some net) :
    ∃ p : Polynomial Scalar, p.degree < (net.t + 1 : ℕ) ∧
      net.collectivePk = some (p.eval 0 • (G2Point.generator : G2Point)).toBytes ∧
      RowsHold (db.getNodesByNetwork networkId) net.n fun id => p.eval (Scalar.ofId id) := by
  obtain ⟨p, hdegree, hdb, stored, hstored, _, hpk⟩ := h
  cases hnet.symm.trans hstored
  exact ⟨p, hdegree, hpk, hdb.rows⟩

omit [Cipher] in
/-- A prepared request has selected its signers from the rows of a network with keys. -/
theorem SigningRequest.Prepares.built {request : SigningRequest}
    {params : Ats.NetworkPublicParams} {signers : List Ats.SignerConfig}
    (h : request.Prepares networkId db params signers) :
    ∃ net members, db.getNetwork networkId = some net ∧ net.state = "dkg_complete" ∧
      buildParams net (db.getNodesByNetwork networkId) request.ltSks = .ok (params, members) ∧
      selectQuorum net.t request.quorum members = .ok signers := by
  obtain ⟨_, net, hnet, hcheck, _, hselect⟩ := h
  obtain ⟨⟨built, members⟩, hbuild, hselect⟩ := Outcome.bind_eq_ok.mp hselect
  obtain ⟨found, hfound, hselect⟩ := Outcome.bind_eq_ok.mp hselect
  cases hselect
  have hsignable : checkSignable net request.quorum = .ok () := by
    cases request with
    | sign req draws =>
      obtain ⟨_, hsignable, _⟩ := Outcome.bind_eq_ok.mp hcheck
      exact hsignable
    | batch req draws => exact hcheck
  refine ⟨net, members, hnet, ?_, hbuild, hfound⟩
  unfold checkSignable at hsignable
  split at hsignable
  · cases hsignable
  · rename_i hstate
    exact not_not.mp hstate

omit [Cipher] in
/-- With matching rows the parameters are valid, and the signers are among the members. -/
theorem SigningRequest.Prepares.valid {request : SigningRequest}
    {params : Ats.NetworkPublicParams} {signers : List Ats.SignerConfig} (hdb : WellKept db)
    (hrows : RowsMatch db) (h : request.Prepares networkId db params signers) :
    ∃ p, Ats.ValidParams params p ∧ ∀ s ∈ signers,
      s = Ats.SignerConfig.new s.nodeId (p.eval (Scalar.ofId s.nodeId)) s.ltSk ∧
      s.nodeId ∈ params.memberPks.map Prod.fst ∧ (s.nodeId, s.ltPk) ∈ params.memberLtPks := by
  obtain ⟨net, members, hnet, hstate, hbuild, hselect⟩ := h.built
  obtain ⟨p, hdegree, hpk, hhold⟩ := ((hdb networkId net hnet).2.2 hstate).exists_polynomial hnet
  obtain ⟨hparams, hconfigs⟩ :=
    validParams_of_matches hdegree hpk hhold (hrows networkId net hnet hstate) hbuild
  obtain ⟨_, _, hpks, hltPks, _⟩ := buildParams_eq_ok hbuild
  refine ⟨p, hparams, fun s hs => ?_⟩
  obtain ⟨m, hm, rfl⟩ := mem_of_selectQuorum hselect hs
  have hid : m.config.nodeId = m.id := congrArg _ (hconfigs m hm)
  rw [hid, hpks, hltPks, List.map_map]
  exact ⟨hconfigs m hm, List.mem_map_of_mem (f := Prod.fst ∘ fun m : Member => (m.id, m.pk)) hm,
    List.mem_map_of_mem (f := fun m : Member => (m.id, m.config.ltPk)) hm⟩

/-- On well kept rows everything follows from the keys of the nodes. -/
theorem published_of_rowsMatch (hdb : WellKept db) (hrows : RowsMatch db) :
    PublishedKeys db := by
  refine ⟨hrows, ?_, ?_, ?_⟩
  · intro networkId net hnet hstate ltSks params members hbuild
    obtain ⟨_, _, hpks, _, hloaded⟩ := buildParams_eq_ok hbuild
    rw [hpks]
    refine List.map_congr_left fun m hm => ?_
    obtain ⟨row, hrow, ltSk, hload⟩ := Outcome.exists_of_forall₂ hloaded hm
    rw [loadMember_matches (hrows networkId net hnet hstate row hrow) hload]
  · intro networkId request params signers hprepares msg tagDraws sig hsign
    obtain ⟨p, hparams, hsigners⟩ := hprepares.valid hdb hrows
    exact quorumPk_eq hparams hprepares.selected.1 (fun s hs => (hsigners s hs).2.1) hsign
  · intro networkId request params signers hprepares hltPks msg tagDraws sig hsign trackingSk
      htracking
    obtain ⟨p, hparams, hsigners⟩ := hprepares.valid hdb hrows
    exact trace_eq_signers hparams hprepares.selected.1
      (fun s hs => ⟨(hsigners s hs).1, (hsigners s hs).2.2⟩) hltPks hsign htracking

end Published

/-! ## Runs of requests -/

/-- A request that creates a network or replaces its keys. -/
inductive NetworkRequest
  | create (req : CreateNetworkRequest) (draws : CreationDraws)
  | replace (networkId : String) (request : KeyRequest)

namespace NetworkRequest

/-- Handle the request and drop the response. -/
def handle : NetworkRequest → Handler Unit
  | create req draws => do
    let _ ← createNetwork req draws
    return ()
  | replace networkId request => request.handle networkId

/-- The database after the request. -/
def serve (db : Db) (request : NetworkRequest) : Db := (request.handle.run exec db).2

/-- The request returns `Ok`. -/
def Succeeds (db : Db) (request : NetworkRequest) : Prop :=
  (request.handle.run exec db).1.isOk = true

/-- The network that the request is about. -/
def networkId : NetworkRequest → String
  | create _ draws => draws.networkId
  | replace networkId _ => networkId

/-- A key generation deals every node the share that its stored public key belongs to,
and a refresh adds nothing to the shares. -/
def KeepsShares (db : Db) : NetworkRequest → Prop
  | create _ _ => True
  | replace networkId (.dkg coins) => ∀ net, db.getNetwork networkId = some net →
      ∀ row ∈ db.getNodesByNetwork networkId, row.publicKey =
        ((jointPolynomial net.n net.t serverSetup coins).eval (Scalar.ofId row.participant) •
          (G2Point.generator : G2Point)).toBytes
  | replace networkId (.refresh coins) => ∀ net, db.getNetwork networkId = some net →
      ∀ row ∈ db.getNodesByNetwork networkId,
        (Refresh.jointZeroPolynomial net.n net.t serverSetup coins).eval
          (Scalar.ofId row.participant) = 0

/-- Every request stays within its network. -/
theorem within_handle (request : NetworkRequest) :
    Only (Stmt.Within request.networkId) request.handle := by
  cases request with
  | create req draws => exact (within_createNetwork req draws).bind fun _ => only_pure _
  | replace networkId request =>
    cases request with
    | dkg coins => exact (within_runDkg networkId coins).bind fun _ => only_pure _
    | refresh coins => exact (within_refreshNetwork networkId coins).bind fun _ => only_pure _

variable {db : Db}

/-- The request leaves other networks alone. -/
theorem sameNetwork_serve (request : NetworkRequest) {other : String}
    (hother : other ≠ request.networkId) : SameNetwork db (serve db request) other :=
  run_sameNetwork request.within_handle hother db

omit [Curve] in
/-- A handler whose response is dropped has had a response if it returned `Ok`. -/
theorem exists_response {α : Type} {p : Handler α}
    (h : ((p >>= fun _ => pure ()).run exec db).1.isOk = true) : ∃ response,
    p.run exec db = (.ok response, ((p >>= fun _ => pure () : Handler Unit).run exec db).2) := by
  obtain ⟨_, hrun⟩ := exists_ok_of_isOk h
  obtain ⟨response, _, hp, hreturn⟩ := run_bind_eq_ok.mp hrun
  cases hreturn
  exact ⟨response, hp⟩

/-- The creation stores the rows of a network without keys. -/
theorem create_stores {req : CreateNetworkRequest} {draws : CreationDraws}
    (h : Succeeds db (.create req draws)) : ∃ net,
      (serve db (.create req draws)).getNetwork draws.networkId = some net ∧
      net.state = "created" ∧ net.t ≤ net.n ∧
      ∃ share, Provisioned (serve db (.create req draws)) draws.networkId net.n net.t share := by
  obtain ⟨response, hcreate⟩ := exists_response h
  obtain ⟨_, _, ht, ⟨net, hnet, hstate⟩, hdb⟩ := createNetwork_provisioned hcreate
  obtain ⟨stored, hstored, hn, ht', _⟩ := hdb.network
  cases hnet.symm.trans hstored
  refine ⟨net, hnet, hstate, by omega, draws.nodeSecret, ?_⟩
  rw [hn, ht']
  exact hdb

/-- A key generation stores the values of the joint polynomial. -/
theorem dkg_stores {networkId : String} {coins : PartyDraws} (hdb : WellKept db)
    (h : Succeeds db (.replace networkId (.dkg coins))) : ∃ net,
      db.getNetwork networkId = some net ∧ net.t ≤ net.n ∧
      KeysConsistent (serve db (.replace networkId (.dkg coins))) networkId net.n net.t ∧
      Provisioned (serve db (.replace networkId (.dkg coins))) networkId net.n net.t
        (keyShare net.n net.t serverSetup coins) := by
  obtain ⟨response, hdkg⟩ := exists_response h
  obtain ⟨net, _, hfetch, _⟩ := run_bind_eq_ok.mp hdkg
  obtain ⟨hnet, rfl⟩ := run_fetchNetwork_eq_ok.mp hfetch
  obtain ⟨ht, ⟨share, hprovisioned⟩, _⟩ := hdb networkId net hnet
  exact ⟨net, hnet, ht, KeysConsistent.of_runDkg ht hprovisioned hdkg,
    (runDkg_stores ht hprovisioned hdkg).2.1⟩

/-- A refresh adds the values of the joint polynomial to the shares of a network with keys. -/
theorem refresh_stores {networkId : String} {coins : PartyDraws} (hdb : WellKept db)
    (h : Succeeds db (.replace networkId (.refresh coins))) : ∃ net share,
      db.getNetwork networkId = some net ∧ net.state = "dkg_complete" ∧ net.t ≤ net.n ∧
      KeysConsistent (serve db (.replace networkId (.refresh coins))) networkId net.n net.t ∧
      Provisioned db networkId net.n net.t share ∧
      Provisioned (serve db (.replace networkId (.refresh coins))) networkId net.n net.t
        fun id => share id + refreshDelta net.n net.t coins id := by
  obtain ⟨response, hrefresh⟩ := exists_response h
  obtain ⟨net, _, hfetch, hrest⟩ := run_bind_eq_ok.mp hrefresh
  obtain ⟨hnet, rfl⟩ := run_fetchNetwork_eq_ok.mp hfetch
  have hstate : net.state = "dkg_complete" := by
    by_contra hstate
    rw [if_pos hstate] at hrest
    cases hrest
  obtain ⟨ht, _, hconsistent⟩ := hdb networkId net hnet
  obtain ⟨p, hdegree, hprovisioned, hkey⟩ := hconsistent hstate
  exact ⟨net, _, hnet, hstate, ht,
    KeysConsistent.refreshNetwork ⟨p, hdegree, hprovisioned, hkey⟩ hrefresh, hprovisioned,
    (refreshNetwork_stores hprovisioned hkey hrefresh).1⟩

/-- Every request keeps the rows. -/
theorem wellKept_serve (hdb : WellKept db) {request : NetworkRequest} (h : Succeeds db request) :
    WellKept (serve db request) := by
  intro networkId net hnet
  by_cases hid : networkId = request.networkId
  · subst hid
    cases request with
    | create req draws =>
      obtain ⟨stored, hstored, hstate, ht, hprovisioned⟩ := create_stores h
      cases hnet.symm.trans hstored
      exact ⟨ht, hprovisioned, fun hcomplete => absurd (hstate.symm.trans hcomplete) (by decide)⟩
    | replace networkId request =>
      have hkept : ∃ n t, t ≤ n ∧ KeysConsistent (serve db (.replace networkId request))
          networkId n t := by
        cases request with
        | dkg coins =>
          obtain ⟨old, _, ht, hconsistent, _⟩ := dkg_stores hdb h
          exact ⟨old.n, old.t, ht, hconsistent⟩
        | refresh coins =>
          obtain ⟨old, _, _, _, ht, hconsistent, _⟩ := refresh_stores hdb h
          exact ⟨old.n, old.t, ht, hconsistent⟩
      obtain ⟨n, t, ht, p, hdegree, hprovisioned, hkey⟩ := hkept
      obtain ⟨stored, hstored, rfl, rfl, _⟩ := hprovisioned.network
      cases hnet.symm.trans hstored
      exact ⟨ht, ⟨_, hprovisioned⟩, fun _ => ⟨p, hdegree, hprovisioned, hkey⟩⟩
  · have hsame : SameNetwork db (serve db request) networkId := sameNetwork_serve request hid
    rw [hsame.network] at hnet
    obtain ⟨ht, ⟨share, hprovisioned⟩, hconsistent⟩ := hdb networkId net hnet
    exact ⟨ht, ⟨share, hsame.provisioned hprovisioned⟩,
      fun hstate => hsame.keysConsistent (hconsistent hstate)⟩

/-- Whether all rows match is decided in the network that the request is about. -/
theorem rowsMatch_serve_iff (hrows : RowsMatch db) {request : NetworkRequest} :
    RowsMatch (serve db request) ↔ ∀ net,
      (serve db request).getNetwork request.networkId = some net → net.state = "dkg_complete" →
      ∀ row ∈ (serve db request).getNodesByNetwork request.networkId, row.Matches := by
  refine ⟨fun h => h request.networkId, fun h networkId net hnet hstate => ?_⟩
  by_cases hid : networkId = request.networkId
  · subst hid
    exact h net hnet hstate
  · have hsame : SameNetwork db (serve db request) networkId := sameNetwork_serve request hid
    rw [hsame.network] at hnet
    exact forall_matches_of_keyColumns hsame.keys (hrows networkId net hnet hstate)

/-- No request that replaces keys writes a public key. -/
theorem samePublic_serve (networkId : String) (request : KeyRequest) :
    SamePublic db (serve db (.replace networkId request)) networkId := by
  cases request with
  | dkg coins =>
    exact run_samePublic ((keepsNodes_runDkg networkId coins).bind fun _ => only_pure _)
      db networkId
  | refresh coins =>
    exact run_samePublic ((keepsNodes_refreshNetwork networkId coins).bind fun _ => only_pure _)
      db networkId

/-- After keys were replaced, the rows match if the public keys from before belong to the
shares that are stored now. -/
theorem rowsMatch_replace_iff (hrows : RowsMatch db) {networkId : String} {request : KeyRequest}
    {n : ℕ} {sk : Scalar} {share : ParticipantId → Scalar}
    (hkey : CollectiveKey (serve db (.replace networkId request)) networkId sk)
    (hstored : RowsHold ((serve db (.replace networkId request)).getNodesByNetwork networkId) n
      share) :
    RowsMatch (serve db (.replace networkId request)) ↔
      ∀ row ∈ db.getNodesByNetwork networkId, row.publicKey =
        (share row.participant • (G2Point.generator : G2Point)).toBytes := by
  obtain ⟨net, hnet, hstate, _⟩ := hkey
  have hown : RowsMatch (serve db (.replace networkId request)) ↔
      ∀ row ∈ (serve db (.replace networkId request)).getNodesByNetwork networkId, row.Matches :=
    (rowsMatch_serve_iff hrows).trans ⟨fun h => h net hnet hstate, fun h _ _ _ => h⟩
  have hcolumns {rows : List NodeRow} :
      (∀ row ∈ rows, row.publicKey =
        (share row.participant • (G2Point.generator : G2Point)).toBytes) ↔
      ∀ columns ∈ rows.map NodeRow.publicColumns, columns.2 =
        (share (UInt16.ofNat columns.1) • (G2Point.generator : G2Point)).toBytes := by
    rw [List.forall_mem_map]
    rfl
  rw [hown, hcolumns, ← samePublic_serve networkId request, ← hcolumns]
  exact forall₂_congr fun row hrow => NodeRow.matches_iff (hstored.secret hrow)

/-- Adding to a share keeps its public key only if nothing is added. -/
theorem toBytes_add_smul_iff {share delta : Scalar} :
    (share • (G2Point.generator : G2Point)).toBytes =
      ((share + delta) • (G2Point.generator : G2Point)).toBytes ↔ delta = 0 := by
  constructor
  · intro h
    have hpoint := congrArg G2Point.fromBytes h
    rw [G2Point.fromBytes_toBytes, G2Point.fromBytes_toBytes, Except.ok.injEq] at hpoint
    have hshare : share = share + delta :=
      smul_left_injective Scalar G2Point.generator_ne_zero hpoint
    exact left_eq_add.mp hshare
  · rintro rfl
    rw [add_zero]

/-- **One request.** From matching keys a successful request leaves matching keys exactly if
it keeps the shares. -/
theorem rowsMatch_serve (hdb : WellKept db) (hrows : RowsMatch db) {request : NetworkRequest}
    (h : Succeeds db request) : RowsMatch (serve db request) ↔ KeepsShares db request := by
  cases request with
  | create req draws =>
    -- the new network has no keys yet
    obtain ⟨stored, hstored, hstate, _⟩ := create_stores h
    refine iff_of_true ((rowsMatch_serve_iff hrows).mpr fun net hnet hcomplete => ?_) trivial
    cases hnet.symm.trans hstored
    exact absurd (hstate.symm.trans hcomplete) (by decide)
  | replace networkId request =>
    cases request with
    | dkg coins =>
      obtain ⟨old, hold, _, ⟨_, _, _, hkey⟩, hdealt⟩ := dkg_stores hdb h
      rw [rowsMatch_replace_iff hrows hkey hdealt.rows]
      simp only [KeepsShares, hold, Option.some.injEq, forall_eq', eval_jointPolynomial]
    | refresh coins =>
      obtain ⟨old, share, hold, hcomplete, _, ⟨_, _, _, hkey⟩, hbefore, hafter⟩ :=
        refresh_stores hdb h
      rw [rowsMatch_replace_iff hrows hkey hafter.rows]
      simp only [KeepsShares, hold, Option.some.injEq, forall_eq']
      refine forall₂_congr fun row hrow => ?_
      -- the public key belongs to the share from before the refresh
      have hpublic := (NodeRow.matches_iff (hbefore.rows.secret hrow)).mp
        (hrows networkId old hold hcomplete row hrow)
      rw [hpublic, Refresh.eval_jointZeroPolynomial]
      exact toBytes_add_smul_iff

/-- An empty database is well kept. -/
theorem wellKept_empty : WellKept Db.empty := nofun

/-- In an empty database all rows match. -/
theorem rowsMatch_empty : RowsMatch Db.empty := nofun

/-- **Published keys.** In a run of successful requests the published keys match the signing
shares throughout exactly if every key generation and every refresh keeps the shares. -/
theorem published_throughout_iff [Cipher] {requests : List NetworkRequest}
    (hok : Run.Guarded serve Succeeds Db.empty requests) :
    Run.Throughout serve PublishedKeys Db.empty requests ↔
      Run.Guarded serve KeepsShares Db.empty requests := by
  have hkept : Run.Throughout serve WellKept Db.empty requests :=
    Run.throughout_of_guarded (fun _ _ hdb h => wellKept_serve hdb h) wellKept_empty hok
  have hrows : Run.Throughout serve RowsMatch Db.empty requests ↔
      Run.Guarded serve KeepsShares Db.empty requests :=
    Run.throughout_iff_guarded_of (fun _ _ hrows h => rowsMatch_serve h.1 hrows h.2)
      rowsMatch_empty (hkept.guarded.and hok)
  rw [← hrows]
  constructor
  · intro h done hdone
    exact (h done hdone).rows
  · intro h done hdone
    exact published_of_rowsMatch (hkept done hdone) (h done hdone)

instance (request : NetworkRequest) : Decidable (Succeeds db request) :=
  inferInstanceAs (Decidable (_ = true))

/-- A network of two nodes, and a key generation that deals both of them the share 2. -/
def generationRun (nodeSecret : ParticipantId → Scalar) : List NetworkRequest :=
  [.create ⟨2, 1⟩ { twoNodeDraws with nodeSecret }, .replace "a" (.dkg fun _ _ => 1)]

omit [Curve] in
/-- Both nodes drew the secret 2 when the network was created. -/
theorem published_throughout_drawn :
    letI := exponentCurve
    letI := plainCipher
    Run.Throughout serve PublishedKeys Db.empty (generationRun fun _ => Scalar.ofId 2) := by
  let := exponentCurve
  let := plainCipher
  have hok : Run.Guarded serve Succeeds Db.empty (generationRun fun _ => Scalar.ofId 2) :=
    Run.guarded_cons.mpr ⟨by decide +kernel,
      Run.guarded_cons.mpr ⟨by decide +kernel, Run.guarded_nil⟩⟩
  refine (published_throughout_iff hok).mpr ?_
  refine Run.guarded_cons.mpr ⟨trivial, Run.guarded_cons.mpr ⟨?_, Run.guarded_nil⟩⟩
  let db := serve Db.empty
    (.create ⟨2, 1⟩ { twoNodeDraws with nodeSecret := fun _ => Scalar.ofId 2 })
  have hsize : (db.getNetwork "a").map (fun net => (net.n, net.t)) = some (2, 1) := by
    decide +kernel
  have hkeys : ∀ row ∈ db.getNodesByNetwork "a", row.publicKey =
      (keyShare 2 1 serverSetup (fun _ _ => 1) row.participant •
        (G2Point.generator : G2Point)).toBytes := by
    decide +kernel
  intro net hnet row hrow
  have hnet : db.getNetwork "a" = some net := hnet
  rw [hnet] at hsize
  obtain ⟨hn, ht⟩ := Prod.mk.inj (Option.some.inj hsize)
  rw [hn, ht, eval_jointPolynomial]
  exact hkeys row hrow

omit [Curve] in
/-- The first node drew the secret 1, and is dealt the share 2. -/
theorem generated_share_unpublished :
    letI := exponentCurve
    letI := plainCipher
    Run.Guarded serve Succeeds Db.empty (generationRun Scalar.ofId) ∧
      ¬ Run.Throughout serve PublishedKeys Db.empty (generationRun Scalar.ofId) := by
  let := exponentCurve
  let := plainCipher
  let db := Run.after serve Db.empty (generationRun Scalar.ofId)
  refine ⟨Run.guarded_cons.mpr ⟨by decide +kernel,
    Run.guarded_cons.mpr ⟨by decide +kernel, Run.guarded_nil⟩⟩, fun h => ?_⟩
  have hcomplete : (db.getNetwork "a").map NetworkRow.state = some "dkg_complete" := by
    decide +kernel
  have hdiffers : ∃ row ∈ db.getNodesByNetwork "a", row.secretKey = (Scalar.ofId 2).toBytes ∧
      row.publicKey ≠ (Scalar.ofId 2 • (G2Point.generator : G2Point)).toBytes := by
    decide +kernel
  obtain ⟨net, hnet, hstate⟩ := Option.map_eq_some_iff.mp hcomplete
  obtain ⟨row, hrow, hsecret, hpublic⟩ := hdiffers
  exact hpublic ((NodeRow.matches_iff hsecret).mp (h.last.rows "a" net hnet hstate row hrow))

end NetworkRequest

end Sigimora.Server
