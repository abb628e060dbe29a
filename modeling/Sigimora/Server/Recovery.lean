import Sigimora.Server.NetworkCreation
import Sigimora.Server.Permanence

/-!
# Keys that are generated anew

Key generations and refreshes that are served side by side, or that the server stops
in the middle of, can leave shares of different polynomials behind. The rows of the
network survive all of that, and from these rows alone one more key generation makes
keys that any sufficient quorum signs with, and that last.
-/

namespace Sigimora.Server

open Handler Program

variable [Curve] {db db' : Db} {networkId : String} {n t : ℕ}

/-! ## Rows that survive -/

/-- The rows of the network are complete, whatever shares they hold, and its state admits a key
generation. -/
structure Usable (db : Db) (networkId : String) (n t : ℕ) : Prop where
  provisioned : ∃ share, Provisioned db networkId n t share
  network : ∃ net, db.getNetwork networkId = some net ∧
    (net.state = "created" ∨ net.state = "dkg_complete")

namespace Usable

/-- A network that is usable is found. -/
theorem isSome (h : Usable db networkId n t) : (db.getNetwork networkId).isSome = true := by
  obtain ⟨net, hnet, _⟩ := h.network
  rw [hnet, Option.isSome_some]

/-- **Statements.** What respects the network keeps it usable. -/
theorem exec {s : Stmt} (h : Usable db networkId n t) (hs : s.Respects True True networkId) :
    Usable (Server.exec s db).2 networkId n t := by
  obtain ⟨share, hdb⟩ := h.provisioned
  rcases hs.cases with hs | ⟨-, pk, hstmt⟩ | ⟨-, nodeId, key, hstmt⟩
  · have hsame := exec_sameNetwork_of_respects hs h.isSome
    exact ⟨⟨share, hsame.provisioned hdb⟩, hsame.network ▸ h.network⟩
  · obtain ⟨net, hnet, _⟩ := h.network
    rw [hstmt]
    exact ⟨⟨share, hdb.updateNetworkState _ _⟩, _, Db.getNetwork_updateNetworkState hnet _ _,
      Or.inr rfl⟩
  · rw [hstmt]
    exact ⟨⟨_, hdb.updateNodeSecret nodeId key⟩, h.network⟩

/-- The keys of a usable network can be generated, and the response tells the collective key. -/
theorem run_runDkg (h : Usable db networkId n t) (hpos : 1 ≤ n) (hn : n ≤ 65535) (ht : t ≤ n)
    (coins : PartyDraws) :
    ∃ response db', (runDkg networkId coins).run Server.exec db = (.ok response, db') ∧
      response.collectivePkHex = some (ByteString.hexEncode
        (collectiveSecret n coins • (G2Point.generator : G2Point)).toBytes) := by
  obtain ⟨net, hnet, hstate⟩ := h.network
  obtain ⟨share, hdb⟩ := h.provisioned
  obtain ⟨stored, hstored, rfl, rfl, _⟩ := hdb.network
  cases hnet.symm.trans hstored
  have hlength : (db.getNodesByNetwork networkId).length = net.n := by
    rw [hdb.rows.length_eq, length_participants hn]
  obtain ⟨outputs, houtputs, hsize, _, hkeys⟩ := dkgOutputs_eq_ok hn ht coins
  obtain ⟨first, hfirst⟩ : ∃ first, outputs[0]? = some first :=
    ⟨_, List.getElem?_eq_getElem (by omega)⟩
  have hindex : (Outcome.index outputs 0 : Outcome ApiError DkgOutput) = .ok first :=
    Outcome.index_eq_ok.mpr hfirst
  have hopen : ¬ (net.state ≠ "created" ∧ net.state ≠ "dkg_complete") := fun hclosed =>
    hstate.elim hclosed.1 hclosed.2
  have hpk : first.collectivePk = collectiveSecret net.n coins • G2Point.generator :=
    hkeys first (List.mem_of_getElem? hfirst)
  unfold runDkg
  rw [run_bind_of_ok (run_fetchNetwork_eq_ok.mpr ⟨hnet, rfl⟩), if_neg hopen,
    run_bind_of_ok (run_loadNodes_eq_ok.mpr ⟨rfl, hlength, rfl⟩),
    run_bind_of_ok (run_lift_eq_ok houtputs), run_bind_of_ok (run_lift_eq_ok hindex), ← hpk]
  exact ⟨_, _, run_bind_eq_ok.mpr ⟨_, _,
    run_forM_eq_ok (storeOutput networkId) (fun _ _ _ => rfl) db, rfl⟩, rfl⟩

end Usable

/-! ## Keys that last -/

/-- Every sufficient quorum signs with the secret, and its signatures verify. -/
def Serves [Cipher] (db : Db) (networkId : String) (n t : ℕ) (secret : Scalar) : Prop :=
  ∀ message msg, ByteString.hexDecode message = .ok msg →
    ∀ quorum : List ParticipantId, quorum.Nodup →
    t + 1 ≤ (quorum.filter fun id => 1 ≤ id.toNat ∧ id.toNat ≤ n).length →
    ∀ draws : SignDraws, draws.message.txId ∉ db.signedTxs.map SignedTxRow.txId →
      ∃ response db',
        (signMessage networkId ⟨message, quorum⟩ draws).run exec db = (.ok response, db') ∧
        response.combinedSigHex =
          ByteString.hexEncode (secret • Ats.hashMessage msg : G1Point).toBytes ∧
        (verifySignature networkId ⟨message, response.combinedSigHex⟩).run exec db' =
          (.ok ⟨true, networkId⟩, db')

/-- The shares are the values of the polynomial, whose value at zero is the secret of the
collective key. -/
def HoldsKeys (db : Db) (networkId : String) (n t : ℕ) (p : Polynomial Scalar) : Prop :=
  Provisioned db networkId n t (fun id => p.eval (Scalar.ofId id)) ∧
    CollectiveKey db networkId (p.eval 0)

namespace HoldsKeys

variable {p : Polynomial Scalar}

/-- So is one that holds keys. -/
theorem isSome (h : HoldsKeys db networkId n t p) :
    (db.getNetwork networkId).isSome = true := by
  obtain ⟨-, net, hnet, _⟩ := h
  rw [hnet, Option.isSome_some]

/-- **Statements.** What leaves the keys of the network alone keeps them. -/
theorem exec {s : Stmt} (h : HoldsKeys db networkId n t p)
    (hs : s.Respects False False networkId) :
    HoldsKeys (Server.exec s db).2 networkId n t p :=
  let hsame := exec_sameNetwork_of_respects hs h.isSome
  ⟨hsame.provisioned h.1, hsame.collectiveKey h.2⟩

/-- Keys of a low degree serve. -/
theorem serves [Cipher] (h : HoldsKeys db networkId n t p) (hn : n ≤ 65535)
    (hdegree : p.degree < (t + 1 : ℕ)) : Serves db networkId n t (p.eval 0) := by
  intro message msg hmsg quorum hnodup hsize draws hfresh
  simp only [← mem_participants hn] at hsize
  obtain ⟨response, db', hsign, hsig, hnetworks⟩ := signMessage_succeeds hn hdegree h.1 h.2
    ⟨message, quorum⟩ hmsg hnodup hsize hfresh
  refine ⟨response, db', hsign, hsig, ?_⟩
  rw [hsig]
  exact verifySignature_succeeds (h.2.of_eq hnetworks) hmsg

end HoldsKeys

/-- The keys that a key generation leaves behind. -/
theorem runDkg_holdsKeys {coins : PartyDraws} {response : DkgStatusResponse} (ht : t ≤ n)
    {share : ParticipantId → Scalar} (hdb : Provisioned db networkId n t share)
    (h : (runDkg networkId coins).run exec db = (.ok response, db')) :
    HoldsKeys db' networkId n t (jointPolynomial n t serverSetup coins) := by
  obtain ⟨_, hrows, hkey⟩ := runDkg_stores ht hdb h
  refine ⟨hrows.congr fun id _ => (eval_jointPolynomial n t serverSetup coins id).symm, ?_⟩
  rwa [eval_zero_jointPolynomial]

/-! ## Recovery -/

variable [Cipher] [JsonIds] [Rfc3339]

/-- **Recovery.** Whatever happened since a network was created, one key generation succeeds, and
from then on every sufficient quorum signs under the key that it has answered with, through all
later lives of the server in which nobody replaces the keys of this network again. -/
theorem key_generation_restores {creation : CreateNetworkRequest} {draws : CreationDraws}
    {created : CreateNetworkResponse} {db₀ db₁ : Db}
    (hcreate : (createNetwork creation draws).run exec db₀ = (.ok created, db₁))
    (hn : creation.n ≤ 65535) (lives : List Life) (coins : PartyDraws) :
    ∃ response db₂ secret,
      (runDkg created.network.id coins).run exec (Run.after Life.apply db₁ lives) =
        (.ok response, db₂) ∧
      response.collectivePkHex =
        some (ByteString.hexEncode (secret • (G2Point.generator : G2Point)).toBytes) ∧
      ∀ later : List Life, (∀ life ∈ later, ∀ i, ¬ (life.requests i).Rekeys created.network.id ∧
          ¬ (life.requests i).Refreshes created.network.id) →
        Serves (Run.after Life.apply db₂ later) created.network.id creation.n creation.t
          secret := by
  obtain ⟨hid, hpos, htn, ⟨net, hnet, hstate⟩, hdb⟩ := createNetwork_provisioned hcreate
  rw [hid]
  have husable : Usable (Run.after Life.apply db₁ lives) draws.networkId creation.n creation.t :=
    preserves_after (J := fun db => Usable db draws.networkId creation.n creation.t)
      lives (fun _ _ _ _ => trivial)
      (fun _ _ _ _ => trivial) (fun _ h => h.isSome) (fun _ _ h hs => h.exec hs)
      ⟨⟨_, hdb⟩, net, hnet, Or.inl hstate⟩
  obtain ⟨response, db₂, hrun, hpk⟩ := husable.run_runDkg (by omega) hn htn.le coins
  obtain ⟨share, hrows⟩ := husable.provisioned
  have hkeys := runDkg_holdsKeys htn.le hrows hrun
  refine ⟨response, db₂, _, hrun, hpk, fun later hlater => ?_⟩
  rw [← eval_zero_jointPolynomial creation.n creation.t serverSetup coins]
  refine HoldsKeys.serves ?_ hn ?_
  · exact preserves_after (J := fun db => HoldsKeys db draws.networkId creation.n creation.t _)
      later (fun life hlife i => (hlater life hlife i).1)
      (fun life hlife i => (hlater life hlife i).2)
      (fun _ h => h.isSome) (fun _ _ h hs => h.exec hs) hkeys
  · refine (degree_jointPolynomial_lt creation.n creation.t serverSetup coins).trans_le ?_
    exact_mod_cast (by omega : max creation.t 1 ≤ creation.t + 1)

/-- The keys of the network `a` are generated and refreshed side by side, and the server stops
before either is done. -/
def interruptedLife : Life where
  bootstrapKeys := ["sigimora_AAAAAAAAAAAAAAAA"]
  draws := ⟨⟨[], "", ""⟩, fun _ => ("", "")⟩
  requests i := .authorized (some "Bearer sigimora_AAAAAAAAAAAAAAAA") ""
    (if i = 1 then .refreshNetwork "a" fun _ _ => (2 : ℕ)
      else .runDkg "a" fun _ _ => (i + 3 : ℕ))
  schedule := List.replicate 7 0 ++ [1, 2, 1, 2, 1, 2, 1, 2, 1, 2]

omit [Curve] [Cipher] [JsonIds] [Rfc3339] in
/-- Two nodes whose keys have got mixed up. -/
theorem key_generation_restores_two_nodes :
    letI := exponentCurve
    letI := plainCipher
    letI := unreadTimes
    letI := unreadIds
    ∃ response db₂ secret,
      (runDkg "a" fun _ _ => 1).run exec (Run.after Life.apply twoNodeCreation.2
        [rekeyingLife, interruptedLife]) = (.ok response, db₂) ∧
      response.collectivePkHex =
        some (ByteString.hexEncode (secret • (G2Point.generator : G2Point)).toBytes) ∧
      Serves (Run.after Life.apply db₂ [listingLife]) "a" 2 1 secret := by
  let := exponentCurve
  let := plainCipher
  let := unreadTimes
  let := unreadIds
  have hcreated : twoNodeCreation.1.isOk = true := by decide +kernel
  obtain ⟨created, hcreate⟩ := exists_ok_of_isOk hcreated
  have hid : created.network.id = "a" := (createNetwork_provisioned hcreate).1
  obtain ⟨response, db₂, secret, hrun, hpk, hserves⟩ := key_generation_restores hcreate (by decide)
    [rekeyingLife, interruptedLife] fun _ _ => 1
  rw [hid] at hrun hserves
  refine ⟨response, db₂, secret, hrun, hpk, hserves [listingLife] fun life hlife i => ?_⟩
  rw [List.mem_singleton.mp hlife]
  constructor
  · rintro ⟨_, _, _, hrequest⟩
    cases hrequest
  · rintro ⟨_, _, _, hrequest⟩
    cases hrequest

end Sigimora.Server
