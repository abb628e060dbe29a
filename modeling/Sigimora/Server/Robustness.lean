import Sigimora.Library.Trust
import Sigimora.Server.AnyQuorum
import Sigimora.Server.KeyLifetime
import Sigimora.Refresh.Manager

/-!
# Requests that do not panic

A handler can panic only where the rows that it reads make no sense. Creations write
rows that make sense, and nothing else changes them, so that no request ever makes the
server panic, in whatever company it is served. There are two exceptions: a signing
request that lists an id twice, and a creation with the largest threshold of an `i64`,
to which later requests add one.
-/

namespace Sigimora.Server

open Handler Program

/-! ## Rows that make sense -/

/-- The threshold is in reach, and one can be added to it. -/
structure NetworkRow.Sized (net : NetworkRow) : Prop where
  lt : net.t < net.n
  ne_max : net.t ≠ 2 ^ 63 - 1

/-- No threshold is out of reach, and nodes are numbered by ids of participants. -/
structure Db.Sized (db : Db) : Prop where
  networks : ∀ row ∈ db.networks, row.Sized
  nodes : ∀ row ∈ db.nodes, 1 ≤ row.nodeId ∧ row.nodeId ≤ 65535

/-- The statement writes rows that make sense. -/
def Stmt.Sized : Stmt → Prop
  | .insertNetwork net => net.Sized
  | .insertNode node => 1 ≤ node.nodeId ∧ node.nodeId ≤ 65535
  | _ => True

section Sized

variable {db db' : Db}

/-- An empty database is sized. -/
theorem sized_empty : Db.empty.Sized :=
  ⟨fun _ hrow => absurd hrow List.not_mem_nil, fun _ hrow => absurd hrow List.not_mem_nil⟩

/-- Only the networks and nodes count. -/
theorem Db.Sized.of_eq (h : db.Sized) (hnetworks : db'.networks = db.networks)
    (hnodes : db'.nodes = db.nodes) : db'.Sized := by
  constructor
  · rw [hnetworks]
    exact h.networks
  · rw [hnodes]
    exact h.nodes

/-- What holds of all rows and of a new one holds of all of them together. -/
theorem forall_mem_append_singleton {α : Type} {P : α → Prop} {rows : List α} {row : α}
    (hrows : ∀ x ∈ rows, P x) (hrow : P row) : ∀ x ∈ rows ++ [row], P x := by
  intro x hx
  rcases List.mem_append.mp hx with hx | hx
  · exact hrows x hx
  · rw [List.mem_singleton.mp hx]
    exact hrow

/-- **Statements.** Rows that make sense are kept. -/
theorem Db.Sized.exec {s : Stmt} (h : db.Sized) (hs : s.Sized) : (Server.exec s db).2.Sized := by
  cases s with
  | insertNetwork net =>
    simp only [Server.exec, insertNetwork]
    split
    · exact h
    · exact ⟨forall_mem_append_singleton h.networks hs, h.nodes⟩
  | updateNetworkState id state collectivePk =>
    refine ⟨fun row hrow => ?_, h.nodes⟩
    obtain ⟨old, hold, rfl⟩ := List.mem_map.mp hrow
    have hsized := h.networks old hold
    split
    · exact ⟨hsized.lt, hsized.ne_max⟩
    · exact hsized
  | insertNode node =>
    simp only [Server.exec, insertNode]
    split
    · exact h
    split
    · exact ⟨h.networks, forall_mem_append_singleton h.nodes hs⟩
    · exact h
  | updateNodeSecret networkId nodeId secretKey =>
    refine ⟨h.networks, fun row hrow => ?_⟩
    obtain ⟨old, hold, rfl⟩ := List.mem_map.mp hrow
    have hsized := h.nodes old hold
    split
    · exact hsized
    · exact hsized
  | updateNodeEpoch id epoch =>
    refine ⟨h.networks, fun row hrow => ?_⟩
    obtain ⟨old, hold, rfl⟩ := List.mem_map.mp hrow
    have hsized := h.nodes old hold
    split
    · exact hsized
    · exact hsized
  | _ =>
    have hnetworks : Table.networks ∉ recordTables := by decide
    have hnodes : Table.nodes ∉ recordTables := by decide
    exact h.of_eq (exec_agree (Stmt.writes_ne_of_writesIn rfl hnetworks) db)
      (exec_agree (Stmt.writes_ne_of_writesIn rfl hnodes) db)

/-- Different ids leave room for at most 65535 nodes. -/
theorem Db.Sized.length_le (h : db.Sized) (networkId : String) :
    (db.getNodesByNetwork networkId).length ≤ 65535 := by
  have hpairs : ((db.getNodesByNetwork networkId).map fun row =>
      (row.nodeId, row.networkId)).Nodup := by
    have hperm := (List.perm_insertionSort (fun a b : NodeRow => a.nodeId ≤ b.nodeId)
      (db.nodes.filter fun row => row.networkId = networkId)).map fun row =>
        (row.nodeId, row.networkId)
    exact hperm.nodup_iff.mpr (db.nodes_nodup.sublist (List.filter_sublist.map _))
  have hnodup : ((db.getNodesByNetwork networkId).map NodeRow.nodeId).Nodup := by
    refine List.Nodup.of_map (fun nodeId => (nodeId, networkId)) ?_
    have hsame : (db.getNodesByNetwork networkId).map (fun row => (row.nodeId, networkId)) =
        (db.getNodesByNetwork networkId).map fun row => (row.nodeId, row.networkId) :=
      List.map_congr_left fun row hrow => by rw [(Db.mem_getNodesByNetwork.mp hrow).2]
    rw [List.map_map]
    exact hsame ▸ hpairs
  have hsubset : ((db.getNodesByNetwork networkId).map NodeRow.nodeId).toFinset ⊆
      Finset.Icc 1 65535 := by
    intro nodeId hmem
    obtain ⟨row, hrow, rfl⟩ := List.mem_map.mp (List.mem_toFinset.mp hmem)
    exact Finset.mem_Icc.mpr (h.nodes row (Db.mem_getNodesByNetwork.mp hrow).1)
  have hcard := Finset.card_le_card hsubset
  rw [List.toFinset_card_of_nodup hnodup, List.length_map, Nat.card_Icc] at hcard
  exact hcard

end Sized

/-! ## Trusted replies -/

/-- What a statement returns while the rows make sense. -/
def Stmt.Returns : (s : Stmt) → s.Value → Prop
  | .getNetwork _, net? => ∀ net, net? = some net → net.Sized
  | .getNodesByNetwork _, rows => rows.length ≤ 65535
  | _, _ => True

/-- The reply is an error or a sensible value. -/
def Trusted (s : Stmt) (reply : Reply s) : Prop := ∀ value, reply = .ok value → s.Returns value

/-- The replies of a sized database are of the form the handlers rely on. -/
theorem Db.Sized.trusted {db : Db} (h : db.Sized) (s : Stmt) : Trusted s (Server.exec s db).1 := by
  intro value hvalue
  cases s with
  | getNetwork id =>
    cases hvalue
    exact fun net hnet => h.networks net (List.mem_of_find?_eq_some hnet)
  | getNodesByNetwork networkId =>
    cases hvalue
    exact h.length_le networkId
  | _ => exact trivial

/-- As long as the replies are trusted, the handler does not panic, and its value satisfies `T`. -/
abbrev Calm {α : Type} (T : α → Prop) (p : Handler α) : Prop :=
  EndsWell Trusted (fun fault => ∀ message, fault ≠ .panic message) T p

section Rules

variable {α β : Type} {T : α → Prop}

/-- Computing is calm if it does not panic. -/
theorem calm_lift {result : Outcome ApiError α} (h : result.NoPanic)
    (hT : ∀ a, result = .ok a → T a) : Calm T (lift result) := by
  cases result with
  | ok a => exact endsWell_ok.mpr (hT a rfl)
  | error fault =>
    refine endsWell_error.mpr ?_
    rintro message rfl
    exact h message rfl

theorem calm_lift_bind {result : Outcome ApiError β} (h : result.NoPanic) {f : β → Handler α}
    (hf : ∀ b, result = .ok b → Calm T (f b)) : Calm T (lift result >>= f) :=
  (calm_lift h fun _ hb => hb).bind hf

/-- Returning a value is calm. -/
theorem calm_pure {a : α} (h : T a) : Calm T (pure a : Handler α) := endsWell_ok.mpr h

/-- Failing is calm. -/
theorem calm_fail (e : ApiError) : Calm T (fail e : Handler α) :=
  endsWell_error.mpr fun _ hpanic => nomatch hpanic

/-- A branch is calm if each side is calm where it is taken. -/
theorem Calm.ite {c : Prop} [Decidable c] {p q : Handler α} (hp : c → Calm T p)
    (hq : ¬ c → Calm T q) : Calm T (if c then p else q) := by
  split
  · next h => exact hp h
  · next h => exact hq h

/-- A query is calm, and returns what the handlers rely on. -/
theorem calm_query (s : Stmt) : Calm s.Returns (query s) := by
  refine endsWell_call.mpr fun reply htrusted => ?_
  cases reply with
  | error e => exact endsWell_error.mpr fun _ hpanic => nomatch hpanic
  | ok value => exact endsWell_ok.mpr (htrusted value rfl)

theorem calm_query_bind {s : Stmt} {f : s.Value → Handler α}
    (hf : ∀ value, s.Returns value → Calm T (f value)) : Calm T (query s >>= f) :=
  (calm_query s).bind hf

/-- So is one whose errors are ignored. -/
theorem calm_attempt (s : Stmt) : Calm (fun _ => True) (attempt s) :=
  endsWell_call.mpr fun _ _ => endsWell_ok.mpr trivial

end Rules

/-! ## Decoding -/

section Decoding

/-- A test of the length, and then the decoding. -/
theorem noPanic_checked {ε δ α : Type} {c : Prop} [Decidable c] {e : ε} {f : δ → ε}
    {x : Outcome δ α} (hx : x.NoPanic) :
    (if c then Outcome.fail e else Outcome.mapErr f x).NoPanic := by
  split
  · exact Outcome.noPanic_fail e
  · exact Outcome.noPanic_mapErr_iff.mpr hx

theorem noPanic_decodeSecretKey (row : NodeRow) : (decodeSecretKey row).NoPanic :=
  noPanic_checked (Scalar.noPanic_fromBytes _)

theorem noPanic_decodeKeyShare (row : NodeRow) : (decodeKeyShare row).NoPanic :=
  noPanic_checked (Scalar.noPanic_fromBytes _)

theorem noPanic_decodeTrackingKey (trackingKeyHex : String) :
    (decodeTrackingKey trackingKeyHex).NoPanic :=
  Outcome.noPanic_bind_iff.mpr ⟨SigningRequest.noPanic_decodeMessage _ _, fun _ _ =>
    noPanic_checked (Scalar.noPanic_fromBytes _)⟩

variable [Curve]

theorem noPanic_g1FromBytes (bytes : List UInt8) :
    (G1Point.fromBytes bytes).NoPanic := Outcome.noPanic_okOr _ _

theorem noPanic_g2FromBytes (bytes : List UInt8) :
    (G2Point.fromBytes bytes).NoPanic := Outcome.noPanic_okOr _ _

theorem noPanic_decodeNodePk (row : NodeRow) : (decodeNodePk row).NoPanic :=
  noPanic_checked (noPanic_g2FromBytes _)

theorem noPanic_decodeStoredPk (owner invalid : String) (bytes : List UInt8) :
    (decodeStoredPk owner invalid bytes).NoPanic :=
  noPanic_checked (noPanic_g2FromBytes _)

theorem noPanic_decodeStoredSignature (tx : SignedTxRow) : (decodeStoredSignature tx).NoPanic :=
  noPanic_checked (noPanic_g1FromBytes _)

theorem noPanic_decodeCollectivePk (invalid : String) (net : NetworkRow) :
    (decodeCollectivePk invalid net).NoPanic :=
  Outcome.noPanic_bind_iff.mpr ⟨Outcome.noPanic_okOr _ _, fun _ _ =>
    noPanic_checked (noPanic_g2FromBytes _)⟩

theorem noPanic_decodeTrackingPk (net : NetworkRow) : (decodeTrackingPk net).NoPanic :=
  Outcome.noPanic_bind_iff.mpr ⟨Outcome.noPanic_okOr _ _, fun _ _ =>
    noPanic_checked (noPanic_g2FromBytes _)⟩

theorem noPanic_decodeSignature (signatureHex : String) : (decodeSignature signatureHex).NoPanic :=
  Outcome.noPanic_bind_iff.mpr ⟨SigningRequest.noPanic_decodeMessage _ _, fun _ _ =>
    noPanic_checked (noPanic_g1FromBytes _)⟩

theorem noPanic_decodeNetworkPks (net : NetworkRow) : (decodeNetworkPks net).NoPanic := by
  refine Outcome.noPanic_bind_iff.mpr ⟨Outcome.noPanic_okOr _ _, fun _ _ => ?_⟩
  refine Outcome.noPanic_bind_iff.mpr ⟨noPanic_decodeStoredPk _ _ _, fun _ _ => ?_⟩
  refine Outcome.noPanic_bind_iff.mpr ⟨Outcome.noPanic_okOr _ _, fun _ _ => ?_⟩
  exact Outcome.noPanic_bind_iff.mpr ⟨noPanic_decodeStoredPk _ _ _, fun _ _ => Outcome.noPanic_ok _⟩

omit [Curve] in
/-- One can be added to a threshold that makes sense. -/
theorem noPanic_storedThreshold {net : NetworkRow} (hnet : net.Sized) :
    (storedThreshold net).NoPanic := by
  rw [storedThreshold, if_neg hnet.ne_max]
  exact Outcome.noPanic_ok _

theorem noPanic_decodeMemberPk (row : NodeRow) : (decodeMemberPk row).NoPanic :=
  Outcome.noPanic_bind_iff.mpr ⟨noPanic_decodeStoredPk _ _ _, fun _ _ => Outcome.noPanic_ok _⟩

end Decoding

/-! ## Keys -/

section Keys

variable [Curve] {n t : ℕ} {coins : PartyDraws}

/-- The keys are refreshed without a panic, one for each row. -/
theorem noPanic_refreshedKeys (n t : ℕ) (coins : PartyDraws) (rows : List NodeRow) :
    (refreshedKeys n t coins rows).NoPanic ∧
      ∀ keys, refreshedKeys n t coins rows = .ok keys → keys.2.length = rows.length := by
  have happly (entry : Scalar × ℕ) :
      (Outcome.mapErr (fun e => ApiError.crypto s!"refresh apply: {e}")
        (Refresh.RefreshManager.applyContributions entry.1 (UInt16.ofNat (entry.2 + 1))
          ((participants n).map fun i =>
            (Refresh.RefreshManager.new n t).generateContribution i (coins i)))).NoPanic :=
    Outcome.noPanic_mapErr_iff.mpr (Outcome.noPanic_ok _)
  constructor
  · refine Outcome.noPanic_bind_iff.mpr
      ⟨Outcome.noPanic_mapM fun row _ => noPanic_decodeSecretKey row, fun _ _ => ?_⟩
    exact Outcome.noPanic_bind_iff.mpr
      ⟨Outcome.noPanic_mapM fun entry _ => happly entry, fun _ _ => Outcome.noPanic_ok _⟩
  · intro keys hkeys
    obtain ⟨current, hcurrent, h⟩ := Outcome.bind_eq_ok.mp hkeys
    obtain ⟨after, hafter, h⟩ := Outcome.bind_eq_ok.mp h
    cases h
    rw [← (Outcome.mapM_eq_ok_iff.mp hafter).length_eq, List.length_zipIdx,
      (Outcome.mapM_eq_ok_iff.mp hcurrent).length_eq]

/-- The ids of the participants differ, and none of them is zero. -/
theorem noPanic_refreshInvariant (keys : List Scalar × List Scalar) :
    (refreshInvariant n t keys).NoPanic := by
  have hnodup : ((participants n).take (t + 1)).Nodup :=
    (nodup_participants n).sublist (List.take_sublist _ _)
  have hzero : 0 ∉ (participants n).take (t + 1) := fun hmem =>
    absurd (mem_participants_iff.mp (List.mem_of_mem_take hmem)).1 (by decide)
  rw [refreshInvariant, Refresh.RefreshManager.verifyCollectiveKeyInvariant_eq_shared hnodup hzero]
  exact Outcome.noPanic_ok _

variable {net : NetworkRow} {rows : List NodeRow} {quorum : List ParticipantId}

theorem noPanic_buildParams (net : NetworkRow) (rows : List NodeRow) (ltSks : ℕ → Scalar) :
    (buildParams net rows ltSks).NoPanic := by
  refine Outcome.noPanic_bind_iff.mpr ⟨noPanic_decodeCollectivePk _ _, fun _ _ => ?_⟩
  refine Outcome.noPanic_bind_iff.mpr ⟨noPanic_decodeTrackingPk _, fun _ _ => ?_⟩
  refine Outcome.noPanic_bind_iff.mpr
    ⟨Outcome.noPanic_mapM fun entry _ => ?_, fun _ _ => Outcome.noPanic_ok _⟩
  refine Outcome.noPanic_bind_iff.mpr ⟨noPanic_decodeNodePk _, fun _ _ => ?_⟩
  exact Outcome.noPanic_bind_iff.mpr ⟨noPanic_decodeKeyShare _, fun _ _ => Outcome.noPanic_ok _⟩

/-- Selected signers of different ids sign. -/
theorem noPanic_signWithQuorum [Cipher] {ltSks : ℕ → Scalar} {params : Ats.NetworkPublicParams}
    {members : List Member} {signers : List Ats.SignerConfig}
    (hbuild : buildParams net rows ltSks = .ok (params, members))
    (hselect : selectQuorum net.t quorum members = .ok signers) (hnodup : quorum.Nodup)
    (msg : List UInt8) (tagDraws : ℕ → Ats.TagCoins) :
    (signWithQuorum params signers quorum msg tagDraws).NoPanic := by
  obtain ⟨hthreshold, hloaded⟩ := buildParams_loads hbuild
  obtain ⟨hsize, hsigners⟩ := selectQuorum_signsFor hloaded hselect
  have hids := map_nodeId_of_signsFor hsigners
  have hquorum : quorum ≠ [] := by
    rintro rfl
    rw [foundIds, List.filter_nil, List.map_eq_nil_iff] at hids
    rw [hids, List.length_nil] at hsize
    omega
  have hdifferent : (signers.map Ats.SignerConfig.nodeId).Nodup := by
    rw [hids]
    exact hnodup.filter _
  obtain ⟨sig, hsig, _⟩ := signWithQuorum_of_nodup (hthreshold ▸ hsize) hdifferent hquorum msg
    tagDraws
  rw [hsig]
  exact Outcome.noPanic_ok sig

end Keys

/-! ## Handlers -/

section Handlers

variable (networkId : String)

/-- Fetching a network is calm. -/
theorem calm_fetchNetwork : Calm NetworkRow.Sized (fetchNetwork networkId) :=
  calm_query_bind fun _ hreturns => calm_lift (Outcome.noPanic_okOr _ _) fun net hnet =>
    hreturns net (Outcome.okOr_eq_ok.mp hnet)

/-- Loading its rows is calm, and there are at most 65535. -/
theorem calm_loadNodes (n : ℕ) :
    Calm (fun rows => rows.length = n ∧ n ≤ 65535) (loadNodes networkId n) := by
  refine calm_query_bind fun rows hreturns => Calm.ite (fun _ => calm_fail _) fun hlength => ?_
  have hlength : rows.length = n := not_not.mp hlength
  exact calm_pure ⟨hlength, hlength ▸ hreturns⟩

variable [Curve]

/-- Creating a network is calm. -/
theorem calm_createNetwork (req : CreateNetworkRequest) (draws : CreationDraws) :
    Calm (fun _ => True) (createNetwork req draws) := by
  refine Calm.ite (fun _ => calm_fail _) fun _ => Calm.ite (fun _ => calm_fail _) fun _ => ?_
  refine calm_query_bind fun _ _ => ?_
  refine (EndsWell.forM fun id _ => calm_query _).bind fun _ _ => ?_
  exact calm_query_bind fun _ _ => calm_pure trivial

/-- Generating keys is calm. -/
theorem calm_runDkg (coins : PartyDraws) : Calm (fun _ => True) (runDkg networkId coins) := by
  refine (calm_fetchNetwork networkId).bind fun net hnet =>
    Calm.ite (fun _ => calm_fail _) fun _ => ?_
  refine (calm_loadNodes networkId net.n).bind fun rows hrows => ?_
  have hthreshold := hnet.lt
  obtain ⟨outputs, houtputs, hlength, _⟩ := dkgOutputs_eq_ok hrows.2 hthreshold.le coins
  refine calm_lift_bind (houtputs ▸ Outcome.noPanic_ok _) fun outputs' houtputs' => ?_
  cases houtputs.symm.trans houtputs'
  refine calm_lift_bind (Outcome.noPanic_index_iff.mpr (by omega)) fun first _ => ?_
  refine (EndsWell.forM fun entry _ => calm_query _).bind fun _ _ => ?_
  exact calm_query_bind fun _ _ => calm_pure trivial

/-- A refresh is calm. -/
theorem calm_refreshNetwork (coins : PartyDraws) :
    Calm (fun _ => True) (refreshNetwork networkId coins) := by
  refine (calm_fetchNetwork networkId).bind fun net _ =>
    Calm.ite (fun _ => calm_fail _) fun _ => ?_
  refine (calm_loadNodes networkId net.n).bind fun rows _ => ?_
  obtain ⟨hnopanic, hlength⟩ := noPanic_refreshedKeys net.n net.t coins rows
  refine calm_lift_bind hnopanic fun keys hkeys => ?_
  refine calm_lift_bind (noPanic_refreshInvariant keys) fun invariant _ => ?_
  refine (EndsWell.forM fun entry hentry => ?_).bind fun _ _ => calm_pure trivial
  have hposition : entry.2 < keys.2.length := by
    rw [hlength keys hkeys]
    exact List.snd_lt_of_mem_zipIdx hentry
  refine calm_lift_bind (Outcome.noPanic_index_iff.mpr hposition) fun key _ => ?_
  exact calm_query_bind fun _ _ => (calm_query _)

variable [Cipher]

omit [Cipher] in
/-- Recording a signature is calm. -/
theorem calm_recordSignature (quorum : List ParticipantId) (msg : List UInt8)
    (sig : Ats.AtsSignature) (draws : MessageDraws) :
    Calm (fun _ => True) (recordSignature networkId quorum msg sig draws) :=
  calm_query_bind fun _ _ => calm_query _

/-- Signing is calm if the quorum repeats no id. -/
theorem calm_signMessage {req : SignRequest} (hnodup : req.quorum.Nodup) (draws : SignDraws) :
    Calm (fun _ => True) (signMessage networkId req draws) := by
  refine (calm_fetchNetwork networkId).bind fun net _ => ?_
  refine calm_lift_bind (SigningRequest.noPanic_checkSignable _ _) fun _ _ => ?_
  refine calm_lift_bind (SigningRequest.noPanic_decodeMessage _ _) fun msg _ => ?_
  refine (calm_loadNodes networkId net.n).bind fun rows _ => ?_
  refine calm_lift_bind (noPanic_buildParams _ _ _) fun ⟨params, members⟩ hbuild => ?_
  refine calm_lift_bind (noPanic_selectQuorum _ _ _) fun signers hselect => ?_
  have hsign := noPanic_signWithQuorum hbuild hselect hnodup
  refine calm_lift_bind (hsign _ _) fun sig _ => ?_
  exact (calm_recordSignature _ _ _ _ _).bind fun _ _ => calm_pure trivial

/-- So is signing a batch. -/
theorem calm_batchSign {req : BatchSignRequest} (hnodup : req.quorum.Nodup) (draws : BatchDraws) :
    Calm (fun _ => True) (batchSign networkId req draws) := by
  refine Calm.ite (fun _ => calm_fail _) fun _ => Calm.ite (fun _ => calm_fail _) fun _ => ?_
  refine (calm_fetchNetwork networkId).bind fun net _ => ?_
  refine calm_lift_bind (SigningRequest.noPanic_checkSignable _ _) fun _ _ => ?_
  refine (calm_loadNodes networkId net.n).bind fun rows _ => ?_
  refine calm_lift_bind (noPanic_buildParams _ _ _) fun ⟨params, members⟩ hbuild => ?_
  refine calm_lift_bind (noPanic_selectQuorum _ _ _) fun signers hselect => ?_
  have hsign := noPanic_signWithQuorum hbuild hselect hnodup
  refine (EndsWell.mapM fun entry _ => ?_).bind fun _ _ => calm_pure trivial
  refine calm_lift_bind (SigningRequest.noPanic_decodeMessage _ _) fun msg _ => ?_
  refine calm_lift_bind (hsign _ _) fun sig _ => ?_
  exact (calm_recordSignature _ _ _ _ _).bind fun _ _ => calm_pure trivial

omit [Cipher] in
/-- Verifying is calm. -/
theorem calm_verifySignature (req : VerifyRequest) :
    Calm (fun _ => True) (verifySignature networkId req) := by
  refine (calm_fetchNetwork networkId).bind fun net _ => ?_
  refine calm_lift_bind (noPanic_decodeCollectivePk _ _) fun _ _ => ?_
  refine calm_lift_bind (SigningRequest.noPanic_decodeMessage _ _) fun _ _ => ?_
  exact calm_lift_bind (noPanic_decodeSignature _) fun _ _ => calm_pure trivial

omit [Cipher] in
/-- Tracing is calm. -/
theorem calm_traceSigners [JsonIds] (req : TraceRequest) :
    Calm (fun _ => True) (traceSigners networkId req) := by
  refine (calm_fetchNetwork networkId).bind fun net hnet => ?_
  refine calm_lift_bind (noPanic_decodeTrackingKey _) fun _ _ => ?_
  refine EndsWell.bind (T := fun _ => True)
    (calm_query_bind fun _ _ => calm_lift (Outcome.noPanic_okOr _ _) fun _ _ => trivial)
    fun tx _ => ?_
  refine calm_lift_bind (noPanic_decodeStoredSignature _) fun _ _ => ?_
  refine calm_lift_bind (noPanic_decodeNetworkPks _) fun _ _ => ?_
  refine calm_query_bind fun rows _ => ?_
  refine calm_lift_bind (Outcome.noPanic_mapM fun row _ => noPanic_decodeMemberPk row)
    fun _ _ => ?_
  exact calm_lift_bind (noPanic_storedThreshold hnet) fun _ _ => calm_pure trivial

end Handlers

/-! ## Requests -/

section Requests

variable [Curve] [Cipher] [JsonIds] [Rfc3339]

/-- The ids that a request wants to sign. -/
def Call.quorum : Call → List ParticipantId
  | signMessage _ req _ => req.quorum
  | batchSign _ req _ _ => req.quorum
  | _ => []

/-- A request that names no signer twice is handled without a panic. -/
theorem Call.calm (user : AuthenticatedUser) {call : Call} (hnodup : call.quorum.Nodup) :
    Calm (fun _ => True) (call.handle user) := by
  cases call with
  | createNetwork req draws => exact calm_createNetwork req draws
  | listNetworks now =>
    exact calm_query_bind fun _ _ => EndsWell.mapM fun _ _ =>
      calm_query_bind fun _ _ => calm_pure trivial
  | getNetwork id now =>
    exact (calm_fetchNetwork id).bind fun _ _ => calm_query_bind fun _ _ => calm_pure trivial
  | runDkg networkId coins => exact calm_runDkg networkId coins
  | getDkgStatus networkId =>
    exact (calm_fetchNetwork networkId).bind fun _ hnet =>
      calm_lift_bind (noPanic_storedThreshold hnet) fun _ _ => calm_pure trivial
  | signMessage networkId req draws => exact calm_signMessage networkId hnodup draws
  | batchSign networkId req draws auditedAt =>
    exact (calm_batchSign networkId hnodup draws).bind fun _ _ =>
      (calm_attempt _).bind fun _ _ => calm_pure trivial
  | verifySignature networkId req => exact calm_verifySignature networkId req
  | traceSigners networkId req => exact calm_traceSigners networkId req
  | refreshNetwork networkId coins => exact calm_refreshNetwork networkId coins
  | getLedger networkId pagination now =>
    exact (calm_fetchNetwork networkId).bind fun _ _ => calm_query_bind fun _ _ =>
      calm_query_bind fun _ _ => calm_pure trivial
  | listNodes networkId pagination now =>
    exact (calm_fetchNetwork networkId).bind fun _ _ => calm_query_bind fun _ _ =>
      calm_query_bind fun _ _ => calm_pure trivial
  | getNode networkId nodeId now =>
    exact calm_query_bind fun _ _ => calm_lift_bind (Outcome.noPanic_okOr _ _) fun _ _ =>
      calm_pure trivial
  | listAuditLogs pagination =>
    exact Calm.ite (fun _ => calm_fail _) fun _ => calm_query_bind fun _ _ =>
      calm_query_bind fun _ _ => calm_pure trivial
  | createApiKey req draws now =>
    exact Calm.ite (fun _ => calm_fail _) fun _ => Calm.ite (fun _ => calm_fail _) fun _ =>
      calm_query_bind fun _ _ => calm_pure trivial
  | listApiKeys pagination now =>
    exact Calm.ite (fun _ => calm_fail _) fun _ => calm_query_bind fun _ _ =>
      calm_query_bind fun _ _ => calm_pure trivial
  | deleteApiKey id auditedAt =>
    exact Calm.ite (fun _ => calm_fail _) fun _ => calm_query_bind fun _ _ =>
      Calm.ite (fun _ => calm_fail _) fun _ => calm_attempt _

omit [Cipher] [JsonIds] [Rfc3339] in
/-- Authenticating is calm. -/
theorem calm_fromRequestParts (authorization : Option String) (usedAt : String) :
    Calm (fun _ => True) (AuthenticatedUser.fromRequestParts authorization usedAt) := by
  have hkey : (bearerKey authorization).NoPanic := by
    refine Outcome.noPanic_bind_iff.mpr ⟨Outcome.noPanic_okOr _ _, fun _ _ => ?_⟩
    refine Outcome.noPanic_bind_iff.mpr ⟨Outcome.noPanic_okOr _ _, fun _ _ => ?_⟩
    dsimp only
    split
    · exact Outcome.noPanic_fail _
    · exact Outcome.noPanic_ok _
  refine calm_lift_bind hkey fun key _ => EndsWell.bind (T := fun _ => True) ?_ fun row? _ => ?_
  · refine endsWell_call.mpr fun reply _ => ?_
    cases reply with
    | error e => exact calm_fail _
    | ok row? => exact endsWell_ok.mpr trivial
  · cases row? with
    | none => exact calm_fail _
    | some row =>
      exact Calm.ite (fun _ => calm_fail _) fun _ => (calm_attempt _).bind fun _ _ =>
        calm_pure trivial

omit [Curve] [Cipher] [JsonIds] [Rfc3339] in
/-- The health check is calm. -/
theorem calm_healthCheck (elapsed elapsedAtEnd : ℕ) :
    Calm (fun _ => True) (healthCheck elapsed elapsedAtEnd) := by
  refine EndsWell.bind (T := fun _ => True) (endsWell_call.mpr fun reply _ => ?_) fun _ _ => ?_
  · cases reply with
    | error e => exact endsWell_ok.mpr trivial
    | ok value => exact endsWell_ok.mpr trivial
  · exact calm_query_bind fun _ _ => calm_query_bind fun _ _ => calm_query_bind fun _ _ =>
      calm_query_bind fun _ _ => calm_pure trivial

/-- The ids that a request wants to sign. -/
def ApiRequest.quorum : ApiRequest → List ParticipantId
  | health _ _ => []
  | authorized _ _ action => action.quorum

/-- Every request is calm if its quorum repeats no id. -/
theorem ApiRequest.calm {request : ApiRequest} (hnodup : request.quorum.Nodup) :
    Calm (fun _ => True) request.serve := by
  cases request with
  | health elapsed elapsedAtEnd => exact calm_healthCheck elapsed elapsedAtEnd
  | authorized authorization usedAt action =>
    exact (calm_fromRequestParts authorization usedAt).bind fun user _ => action.calm user hnodup

/-! ### What requests write -/

omit [Curve] [Cipher] [JsonIds] [Rfc3339] in
/-- A handler that writes neither networks nor nodes keeps a database sized. -/
theorem WritesOnly.sized {α : Type} {tables : List Table} {p : Handler α} (hp : WritesOnly tables p)
    (hnetworks : Table.networks ∉ tables) (hnodes : Table.nodes ∉ tables) :
    Only Stmt.Sized p := by
  refine Only.mono hp fun s hs => ?_
  cases s with
  | insertNetwork net => exact absurd rfl (Stmt.writes_ne_of_writesIn hs hnetworks)
  | insertNode node => exact absurd rfl (Stmt.writes_ne_of_writesIn hs hnodes)
  | _ => exact trivial

/-- One can be added to the threshold of the network that the request creates, if any. -/
def Call.ThresholdFits : Call → Prop
  | createNetwork req _ => req.t ≠ 2 ^ 63 - 1
  | _ => True

/-- One can be added to the threshold of the network that the request creates, if any. -/
def ApiRequest.ThresholdFits : ApiRequest → Prop
  | health _ _ => True
  | authorized _ _ action => action.ThresholdFits

omit [Cipher] [JsonIds] [Rfc3339] in
/-- A creation checks the threshold and numbers the nodes from one. -/
theorem sized_createNetwork {req : CreateNetworkRequest} (hfits : req.t ≠ 2 ^ 63 - 1)
    (draws : CreationDraws) : Only Stmt.Sized (createNetwork req draws) := by
  simp only [createNetwork]
  split
  · exact only_fail _
  split
  · exact only_fail _
  next hthreshold =>
  have hnetwork : (Stmt.insertNetwork (newNetwork req draws)).Sized :=
    ⟨not_le.mp fun hle => hthreshold (Or.inr hle), hfits⟩
  refine (only_query hnetwork).bind fun _ => (Only.forM fun id hid => only_query ?_).bind fun _ =>
    Only.bind (only_query trivial) fun _ => only_pure _
  exact ⟨(mem_participants_iff.mp hid).1, Nat.le_of_lt_succ id.toNat_lt⟩

/-- A call whose threshold fits keeps it sized. -/
theorem Call.sized (user : AuthenticatedUser) {call : Call} (hfits : call.ThresholdFits) :
    Only Stmt.Sized (call.handle user) := by
  cases call with
  | createNetwork req draws => exact sized_createNetwork hfits draws
  | runDkg networkId coins =>
    exact only_runDkg coins trivial trivial (fun _ _ => trivial) fun _ _ => trivial
  | refreshNetwork networkId coins =>
    exact only_refreshNetwork coins trivial trivial (fun _ _ => trivial) fun _ _ => trivial
  | _ => exact (Call.writesOnly user _).sized (by simp [Call.tables]) (by simp [Call.tables])

/-- So does a request. -/
theorem ApiRequest.sized {request : ApiRequest} (hfits : request.ThresholdFits) :
    Only Stmt.Sized request.serve := by
  cases request with
  | health elapsed elapsedAtEnd =>
    exact (writesOnly_healthCheck elapsed elapsedAtEnd).sized List.not_mem_nil List.not_mem_nil
  | authorized authorization usedAt call =>
    exact ((writesOnly_fromRequestParts authorization usedAt).sized (by decide) (by decide)).bind
      fun user => Call.sized user hfits

/-! ## Lives -/

/-- The requests that are served in a life. -/
theorem Life.endsWell {life : Life} (hfits : ∀ i, (life.requests i).ThresholdFits) {db : Db}
    (hdb : db.Sized) :
    (life.served db).EndsWell Trusted (fun fault => ∀ message, fault ≠ .panic message)
      (fun _ _ => True) Stmt.Sized Db.Sized fun i => (life.requests i).quorum.Nodup := by
  have hstart : ((ensureBootstrapKey life.bootstrapKeys life.draws).run exec db).2.Sized :=
    ((writesOnly_ensureBootstrapKey life.bootstrapKeys life.draws).sized (by decide)
      (by decide)).run (J := Db.Sized) (fun _ _ hs hsized => hsized.exec hs) hdb
  exact System.EndsWell.runSchedule (fun _ _ hs hsized => hsized.exec hs)
    (fun s _ hsized => hsized.trusted s)
    ⟨hstart, fun i => ApiRequest.sized (hfits i), fun i hnodup => ApiRequest.calm hnodup⟩
    life.schedule

/-- Lives in which all thresholds fit leave rows that make sense. -/
theorem sized_after {lives : List Life}
    (hfits : ∀ life ∈ lives, ∀ i, (life.requests i).ThresholdFits) {db : Db} (hdb : db.Sized) :
    (Run.after Life.apply db lives).Sized := by
  induction lives generalizing db with
  | nil => exact hdb
  | cons life lives ih =>
    obtain ⟨hlife, hlives⟩ := List.forall_mem_cons.mp hfits
    exact ih hlives (Life.endsWell hlife hdb).store

/-- **No panics.** In no life of the server, whatever requests it has served before and serves at
the same time, does a request panic that names no signer twice, if nobody ever creates a network
with the largest threshold of an `i64`. -/
theorem requests_never_panic {lives : List Life} {life : Life}
    (hfits : ∀ served ∈ life :: lives, ∀ i, (served.requests i).ThresholdFits) (i : ℕ)
    (hnodup : (life.requests i).quorum.Nodup) (message : String) :
    (life.served (Run.after Life.apply Db.empty lives)).programs i ≠
      .finish (.error (.panic message)) := by
  obtain ⟨hlife, hlives⟩ := List.forall_mem_cons.mp hfits
  intro hpanic
  have hends := (Life.endsWell hlife (sized_after hlives sized_empty)).programs i hnodup
  rw [hpanic] at hends
  exact endsWell_error.mp hends message rfl

/-- Signing requests of two nodes, while the keys of the network are generated. -/
def signingLife : Life where
  bootstrapKeys := ["sigimora_AAAAAAAAAAAAAAAA"]
  draws := ⟨⟨[], "", ""⟩, fun _ => ("", "")⟩
  requests i := .authorized (some "Bearer sigimora_AAAAAAAAAAAAAAAA") ""
    (if i = 0 then .createNetwork ⟨2, 1⟩ twoNodeDraws
      else if i = 1 then .runDkg "a" fun _ _ => (1 : ℕ)
      else .signMessage "a" ⟨"01", [2, 1]⟩
        ⟨fun _ => (5 : ℕ), fun _ => ⟨1, 0⟩, "tx", "", ""⟩)
  schedule := List.replicate 8 0 ++ List.replicate 4 1 ++ [2, 1, 2, 1, 2, 1, 2, 2, 2, 2]

omit [Curve] [Cipher] [JsonIds] [Rfc3339] in
/-- The signing request reads while the keys are replaced. -/
theorem requests_never_panic_signing :
    letI := exponentCurve
    letI := plainCipher
    letI := unreadTimes
    letI := unreadIds
    (signingLife.served (Run.after Life.apply Db.empty [listingLife])).programs 2 ≠
      .finish (.error (.panic
        "Lagrange denominator must be invertible (indices must be distinct)")) := by
  have hfits : ∀ served ∈ [signingLife, listingLife], ∀ i,
      (served.requests i).ThresholdFits := by
    refine List.forall_mem_cons.mpr ⟨fun i => ?_, List.forall_mem_singleton.mpr fun _ => trivial⟩
    by_cases hi : i = 0
    · rw [hi]
      exact show (1 : ℕ) ≠ 2 ^ 63 - 1 by norm_num
    · simp only [signingLife, if_neg hi]
      split
      · trivial
      · trivial
  have hnodup : (signingLife.requests 2).quorum.Nodup := show [(2 : ParticipantId), 1].Nodup by
    decide
  exact @requests_never_panic exponentCurve plainCipher unreadIds unreadTimes _ _ hfits 2 hnodup _

end Requests

end Sigimora.Server
