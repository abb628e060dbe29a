import Sigimora.Ats.Signing
import Sigimora.Server.KeyMaterial
import Sigimora.Server.SigningRoutes

/-!
# Quorums of stored shares

The signers that a request names are loaded from the stored rows. A quorum whose
key shares lie on a polynomial of low degree signs with the value of the
polynomial at zero.
-/

namespace Sigimora.Server

variable [Curve] {n t : ℕ} {rows : List NodeRow} {share : ParticipantId → Scalar}

/-- The members carry the ids of the participants and the given key shares. -/
def MembersHold (members : List Member) (n : ℕ) (share : ParticipantId → Scalar) : Prop :=
  List.Forall₂ (fun m id => m.id = id ∧ m.config.nodeId = id ∧ m.config.dkgShare = share id)
    members (participants n)

/-- A decoded point is the one that was encoded. -/
theorem decodeCollectivePk_eq_ok {invalid : String} {net : NetworkRow} {pk : G2Point}
    (h : net.collectivePk = some pk.toBytes) : decodeCollectivePk invalid net = .ok pk := by
  rw [decodeCollectivePk, h, Outcome.okOr_some, Outcome.ok_bind, if_neg (by simp),
    G2Point.fromBytes_toBytes, Outcome.mapErr_ok]

/-- A stored tracking key is read back. -/
theorem decodeTrackingPk_eq_ok {net : NetworkRow} {pk : G2Point}
    (h : net.trackingPk = some pk.toBytes) : decodeTrackingPk net = .ok pk := by
  rw [decodeTrackingPk, h, Outcome.okOr_some, Outcome.ok_bind, if_neg (by simp),
    G2Point.fromBytes_toBytes, Outcome.mapErr_ok]

/-- A stored public key is read back. -/
theorem decodeNodePk_eq_ok {row : NodeRow} {pk : G2Point} (h : row.publicKey = pk.toBytes) :
    decodeNodePk row = .ok pk := by
  rw [decodeNodePk, h, if_neg (by simp), G2Point.fromBytes_toBytes, Outcome.mapErr_ok]

omit [Curve] in
/-- A stored share is read back. -/
theorem decodeKeyShare_eq_ok {row : NodeRow} {s : Scalar} (h : row.secretKey = s.toBytes) :
    decodeKeyShare row = .ok s := by
  rw [decodeKeyShare, h, if_neg (by simp), Scalar.fromBytes_toBytes, Outcome.mapErr_ok]

/-- A loaded member signs with the share that its row holds. -/
theorem loadMember_holds {row : NodeRow} {ltSk s : Scalar} {id : ParticipantId} {m : Member}
    (hid : row.nodeId = id.toNat) (hsecret : row.secretKey = s.toBytes)
    (h : loadMember row ltSk = .ok m) :
    m.id = id ∧ m.config.nodeId = id ∧ m.config.dkgShare = s := by
  rw [loadMember, decodeKeyShare_eq_ok hsecret, hid, UInt16.ofNat_toNat] at h
  obtain ⟨pk, _, hm⟩ := Outcome.bind_eq_ok.mp h
  cases hm
  exact ⟨rfl, rfl, rfl⟩

/-- Building the parameters decodes the key of the network and loads every row. -/
theorem buildParams_eq_ok {net : NetworkRow} {ltSks : ℕ → Scalar}
    {params : Ats.NetworkPublicParams} {members : List Member}
    (h : buildParams net rows ltSks = .ok (params, members)) :
    params.threshold = net.t + 1 ∧
      decodeCollectivePk "invalid collective PK bytes" net = .ok params.collectivePk ∧
      params.memberPks = members.map (fun m => (m.id, m.pk)) ∧
      params.memberLtPks = members.map (fun m => (m.id, m.config.ltPk)) ∧
      List.Forall₂ (fun m row => ∃ ltSk, loadMember row ltSk = .ok m) members rows := by
  obtain ⟨collectivePk, hcollective, h⟩ := Outcome.bind_eq_ok.mp h
  obtain ⟨trackingPk, _, h⟩ := Outcome.bind_eq_ok.mp h
  obtain ⟨loaded, hload, h⟩ := Outcome.bind_eq_ok.mp h
  cases h
  have hzip : List.Forall₂ (fun entry row => entry.1 = row) rows.zipIdx rows := by
    rw [← List.forall₂_map_left_iff, List.zipIdx_map_fst]
    exact List.forall₂_refl rows
  refine ⟨rfl, hcollective, rfl, rfl, Outcome.mapM_forall₂ hzip hload ?_⟩
  rintro entry row m rfl hm
  exact ⟨_, hm⟩

/-- The parameters and members that are built from the stored rows. -/
theorem buildParams_holds {net : NetworkRow} {ltSks : ℕ → Scalar} {pk : G2Point}
    {params : Ats.NetworkPublicParams} {members : List Member}
    (hpk : net.collectivePk = some pk.toBytes) (hrows : RowsHold rows n share)
    (h : buildParams net rows ltSks = .ok (params, members)) :
    params.threshold = net.t + 1 ∧ params.collectivePk = pk ∧ MembersHold members n share := by
  obtain ⟨hthreshold, hcollective, _, _, hloaded⟩ := buildParams_eq_ok h
  rw [decodeCollectivePk_eq_ok hpk, Except.ok.injEq] at hcollective
  refine ⟨hthreshold, hcollective.symm, List.forall₂_iff_get.mpr
    ⟨hloaded.length_eq.trans hrows.length_eq, fun i hi hi' => ?_⟩⟩
  have hi'' : i < rows.length := hloaded.length_eq ▸ hi
  obtain ⟨ltSk, hload⟩ := hloaded.get hi hi''
  obtain ⟨hid, hsecret⟩ := hrows.get hi'' hi'
  exact loadMember_holds hid hsecret hload

/-- Well-formed rows can be loaded. -/
theorem buildParams_exists {net : NetworkRow} {pk trackingPk : G2Point} (ltSks : ℕ → Scalar)
    (hpk : net.collectivePk = some pk.toBytes)
    (htracking : net.trackingPk = some trackingPk.toBytes) (hrows : RowsHold rows n share)
    (hkeys : ∀ row ∈ rows, ∃ key : G2Point, row.publicKey = key.toBytes) :
    ∃ params members, buildParams net rows ltSks = .ok (params, members) := by
  obtain ⟨members, hmembers, _⟩ := Outcome.mapM_exists rows.zipIdx
    (f := fun entry => loadMember entry.1 (ltSks entry.2)) (P := fun _ _ => True) (by
      intro entry hentry
      have hrow : entry.1 ∈ rows := List.fst_mem_of_mem_zipIdx hentry
      obtain ⟨key, hkey⟩ := hkeys entry.1 hrow
      rw [loadMember, decodeNodePk_eq_ok hkey, decodeKeyShare_eq_ok (hrows.secret hrow)]
      exact ⟨_, rfl, trivial⟩)
  rw [buildParams, decodeCollectivePk_eq_ok hpk, Outcome.ok_bind, decodeTrackingPk_eq_ok htracking,
    Outcome.ok_bind, hmembers, Outcome.ok_bind]
  exact ⟨_, _, rfl⟩

/-- The ids of the members are those of the participants. -/
theorem MembersHold.ids {members : List Member} (h : MembersHold members n share) :
    members.map Member.id = participants n := by
  rw [← List.forall₂_eq_eq_eq, List.forall₂_map_left_iff]
  exact h.imp fun _ _ hm => hm.1

/-- A member signs under its own id with its own share. -/
theorem MembersHold.config {members : List Member} (h : MembersHold members n share) {m : Member}
    (hm : m ∈ members) : m.config.nodeId = m.id ∧ m.config.dkgShare = share m.id := by
  obtain ⟨id, _, rfl, hnode, hshare⟩ := Outcome.exists_of_forall₂ h hm
  exact ⟨hnode, hshare⟩

/-- The requested participants, each with its signing keys. -/
theorem filterMap_members {members : List Member} (hmembers : MembersHold members n share)
    (quorum : List ParticipantId) :
    ((quorum.filterMap fun qid => (members.find? fun m => m.id = qid).map Member.config).map
        fun s => (s.nodeId, s.dkgShare)) =
      (quorum.filter fun qid => qid ∈ participants n).map fun qid => (qid, share qid) := by
  have hids := hmembers.ids
  induction quorum with
  | nil => rfl
  | cons qid quorum ih =>
    cases hfind : members.find? fun m => m.id = qid with
    | none =>
      have hnot : qid ∉ participants n := by
        rw [← hids, List.mem_map]
        rintro ⟨m, hm, hid⟩
        simpa [hid] using List.find?_eq_none.mp hfind m hm
      rw [List.filterMap_cons_none (by rw [hfind]; rfl), ih, List.filter_cons_of_neg (by simpa)]
    | some m =>
      have hid : m.id = qid := by simpa using List.find?_some hfind
      have hm := List.mem_of_find?_eq_some hfind
      have hmem : qid ∈ participants n := by
        rw [← hids, ← hid]
        exact List.mem_map_of_mem hm
      rw [List.filterMap_cons_some (by rw [hfind]; rfl), List.map_cons, ih,
        List.filter_cons_of_pos (by simpa), List.map_cons, (hmembers.config hm).1,
        (hmembers.config hm).2, hid]

/-- The selected signers are the requested participants, if there are enough of them. -/
theorem selectQuorum_holds {members : List Member} (hmembers : MembersHold members n share)
    {quorum : List ParticipantId} {signers : List Ats.SignerConfig}
    (h : selectQuorum t quorum members = .ok signers) :
    t + 1 ≤ signers.length ∧ signers.map (fun s => (s.nodeId, s.dkgShare)) =
      (quorum.filter fun qid => qid ∈ participants n).map fun qid => (qid, share qid) := by
  simp only [selectQuorum] at h
  split at h
  · cases h
  · rename_i hsize
    cases h
    exact ⟨not_lt.mp hsize, filterMap_members hmembers quorum⟩

/-- A quorum is found if it lists enough of the participants. -/
theorem selectQuorum_exists {members : List Member} (hmembers : MembersHold members n share)
    {quorum : List ParticipantId}
    (hsize : t + 1 ≤ (quorum.filter fun qid => qid ∈ participants n).length) :
    ∃ signers, selectQuorum t quorum members = .ok signers := by
  have hlength := congrArg List.length (filterMap_members hmembers quorum)
  rw [List.length_map, List.length_map] at hlength
  exact ⟨_, if_neg (by rw [hlength]; exact not_lt.mpr hsize)⟩

/-- The partial signatures carry the ids of the signers. -/
theorem map_nodeId_signPartial [Cipher] (signers : List Ats.SignerConfig) (msg : List UInt8)
    (trackingPk : G2Point) (tagDraws : ℕ → Ats.TagCoins) :
    (signers.zipIdx.map fun entry =>
      Ats.signPartial entry.1 msg trackingPk (tagDraws entry.2)).map Ats.PartialSignature.nodeId =
      signers.map Ats.SignerConfig.nodeId := by
  conv_rhs => rw [← List.zipIdx_map_fst 0 signers]
  rw [List.map_map, List.map_map]
  rfl

/-- **Signing.** Enough different signers whose key shares lie on a polynomial of
low degree sign with the value of the polynomial at zero. -/
theorem signWithQuorum_eq_ok [Cipher] {params : Ats.NetworkPublicParams}
    {signers : List Ats.SignerConfig} {quorum : List ParticipantId} {p : Polynomial Scalar}
    (hsize : params.threshold ≤ signers.length) (hdegree : p.degree < params.threshold)
    (hnodup : (signers.map Ats.SignerConfig.nodeId).Nodup)
    (hshare : ∀ s ∈ signers, s.dkgShare = p.eval (Scalar.ofId s.nodeId))
    (hquorum : quorum ≠ []) (msg : List UInt8) (tagDraws : ℕ → Ats.TagCoins) :
    ∃ sig, signWithQuorum params signers quorum msg tagDraws = .ok sig ∧
      sig.combinedSig = p.eval 0 • Ats.hashMessage msg := by
  obtain ⟨first, rest, rfl⟩ := List.exists_cons_of_ne_nil hquorum
  have hids := map_nodeId_signPartial signers msg params.trackingPk tagDraws
  have hsigmas : (signers.zipIdx.map fun entry =>
      Ats.signPartial entry.1 msg params.trackingPk (tagDraws entry.2)).map
        Ats.PartialSignature.sigma = (signers.map Ats.SignerConfig.nodeId).map fun id =>
          p.eval (Scalar.ofId id) • Ats.hashMessage msg := by
    conv_rhs => rw [← List.zipIdx_map_fst 0 signers]
    rw [List.map_map, List.map_map, List.map_map]
    refine List.map_congr_left fun entry hentry => ?_
    simp only [Function.comp_apply, Ats.signPartial,
      hshare entry.1 (List.fst_mem_of_mem_zipIdx hentry)]
  have haggregate := Ats.aggregate_eq_ok (signers.zipIdx.map fun entry =>
      Ats.signPartial entry.1 msg params.trackingPk (tagDraws entry.2))
    (by rw [List.length_map, List.length_zipIdx]; exact hsize) (by rw [hids]; exact hnodup) 0 first
  refine ⟨_, congrArg (Outcome.mapErr ApiError.ofAts) haggregate, ?_⟩
  simp only [hids, Ats.quorumWeights]
  refine Shamir.weightedSum_smul hnodup ?_ hsigmas
  rw [List.length_map]
  exact lt_of_lt_of_le hdegree (by exact_mod_cast hsize)

/-- The selected signers of a request for different nodes sign together. -/
theorem signWithQuorum_selected [Cipher] {params : Ats.NetworkPublicParams}
    {signers : List Ats.SignerConfig} {quorum : List ParticipantId} {p : Polynomial Scalar}
    (hpos : 0 < params.threshold) (hsize : params.threshold ≤ signers.length)
    (hdegree : p.degree < params.threshold) (hnodup : quorum.Nodup)
    (hselected : signers.map (fun s => (s.nodeId, s.dkgShare)) =
      (quorum.filter fun qid => qid ∈ participants n).map fun qid => (qid, share qid))
    (hshare : ∀ id ∈ quorum, id ∈ participants n → share id = p.eval (Scalar.ofId id))
    (msg : List UInt8) (tagDraws : ℕ → Ats.TagCoins) :
    ∃ sig, signWithQuorum params signers quorum msg tagDraws = .ok sig ∧
      sig.combinedSig = p.eval 0 • Ats.hashMessage msg := by
  have hids : signers.map Ats.SignerConfig.nodeId =
      quorum.filter fun qid => qid ∈ participants n := by
    have h := congrArg (List.map Prod.fst) hselected
    rw [List.map_map, List.map_map] at h
    exact h.trans (List.map_id _)
  refine signWithQuorum_eq_ok hsize hdegree (hids ▸ hnodup.filter _) ?_ ?_ msg tagDraws
  · intro s hs
    have hmem : (s.nodeId, s.dkgShare) ∈
        (quorum.filter fun qid => qid ∈ participants n).map fun qid => (qid, share qid) :=
      hselected ▸ List.mem_map_of_mem (f := fun s => (s.nodeId, s.dkgShare)) hs
    obtain ⟨qid, hqid, heq⟩ := List.mem_map.mp hmem
    obtain ⟨rfl, hs⟩ := Prod.mk.inj heq
    rw [List.mem_filter, decide_eq_true_iff] at hqid
    rw [← hs, hshare _ hqid.1 hqid.2]
  · rintro rfl
    have hempty : signers.length = 0 := by simpa using congrArg List.length hids
    omega

end Sigimora.Server
