import Sigimora.Server.Provenance

/-!
# What requests issue

Every request reads the row of the network, then the rows of its nodes, and
whatever it writes, returns or records is computed from these two replies. This
is proved of the handlers for all replies that they may get, so that it holds in
every interleaving with other requests.
-/

namespace Sigimora.Server

open Handler Program

/-! ## What a request has read -/

/-- The row of the network that a request has read. -/
def networkRead (h : List (Event Reply)) : Option NetworkRow :=
  h.findSome? fun event =>
    match event with
    | ⟨.getNetwork _, .ok net⟩ => net
    | _ => none

/-- The rows of the nodes that a request has read. -/
def nodesRead (h : List (Event Reply)) : Option (List NodeRow) :=
  h.findSome? fun event =>
    match event with
    | ⟨.getNodesByNetwork _, .ok rows⟩ => some rows
    | _ => none

/-- The two reads that a request starts with. -/
def reads (networkId : String) (net : NetworkRow) (rows : List NodeRow) : List (Event Reply) :=
  [⟨.getNetwork networkId, .ok (some net)⟩, ⟨.getNodesByNetwork networkId, .ok rows⟩]

/-- A request reads the network first and its nodes next, each once, and only then
issues the statements that `writes` allows for what it has read. -/
def Issues (networkId : String) (writes : NetworkRow → List NodeRow → Stmt → Prop)
    (h : List (Event Reply)) : Stmt → Prop
  | .getNetwork id => id = networkId ∧ networkRead h = none
  | .getNodesByNetwork id => id = networkId ∧ nodesRead h = none
  | s => ∃ net rows, networkRead h = some net ∧ nodesRead h = some rows ∧
      rows.length = net.n ∧ writes net rows s

/-- Whether the statement is one of the two reads. -/
def Stmt.isRead : Stmt → Bool
  | .getNetwork _ => true
  | .getNodesByNetwork _ => true
  | _ => false

/-- After the two reads a request may issue what `writes` allows. -/
theorem issues_write {networkId : String} {writes : NetworkRow → List NodeRow → Stmt → Prop}
    {net : NetworkRow} {rows : List NodeRow} {h : List (Event Reply)} {s : Stmt}
    (hs : s.isRead = false) (hreads : reads networkId net rows <+: h)
    (hlength : rows.length = net.n) (hwrites : writes net rows s) :
    Issues networkId writes h s := by
  obtain ⟨done, rfl⟩ := hreads
  cases s with
  | getNetwork id => cases hs
  | getNodesByNetwork id => cases hs
  | _ => exact ⟨net, rows, rfl, rfl, hlength, hwrites⟩

section Parts

variable {α : Type} {networkId : String} {writes : NetworkRow → List NodeRow → Stmt → Prop}
  {P : List (Event Reply) → Stmt → Prop} {Q : List (Event Reply) → α → Prop}
  {h : List (Event Reply)}

/-- Computing issues nothing. -/
theorem meets_lift {result : Outcome ApiError α} (hok : ∀ a, result = .ok a → Q h a) :
    Meets P Q h (lift result) := by
  cases result with
  | error e => exact meets_error e
  | ok a => exact meets_ok.mpr (hok a rfl)

/-- A computation does not extend the history. -/
theorem meets_lift_bind {β : Type} {result : Outcome ApiError β} {f : β → Handler α}
    (hf : ∀ b, result = .ok b → Meets P Q h (f b)) : Meets P Q h (lift result >>= f) := by
  cases result with
  | error e => exact meets_error e
  | ok b => exact hf b rfl

/-- A program that fails issues nothing. -/
theorem meets_fail (e : ApiError) : Meets P Q h (fail e : Handler α) := meets_error _

/-- A query issues its statement, and returns its value if that succeeds. -/
theorem meets_query {s : Stmt} {Q : List (Event Reply) → s.Value → Prop} (hs : P h s)
    (hok : ∀ value, Q (h ++ [⟨s, .ok value⟩]) value) : Meets P Q h (query s) := by
  refine meets_call.mpr ⟨hs, fun reply => ?_⟩
  cases reply with
  | error e => exact meets_error _
  | ok value => exact meets_ok.mpr (hok value)

/-- Fetching the network is the first read. -/
theorem meets_fetchNetwork :
    Meets (Issues networkId writes)
      (fun h net => h = [⟨.getNetwork networkId, .ok (some net)⟩]) [] (fetchNetwork networkId) := by
  refine Meets.bind (Q := fun h row => h = [⟨.getNetwork networkId, .ok row⟩])
    (meets_query ⟨rfl, rfl⟩ fun _ => rfl) fun h row hrow => meets_lift fun net hnet => ?_
  rw [hrow, Outcome.okOr_eq_ok.mp hnet]

/-- Loading the nodes is the second read. -/
theorem meets_loadNodes (net : NetworkRow) :
    Meets (Issues networkId writes)
      (fun h rows => h = reads networkId net rows ∧ rows.length = net.n)
      [⟨.getNetwork networkId, .ok (some net)⟩] (loadNodes networkId net.n) := by
  refine Meets.bind (Q := fun h rows => h = reads networkId net rows)
    (meets_query ⟨rfl, rfl⟩ fun _ => rfl) fun h rows hrows => ?_
  split
  · exact meets_fail _
  · rename_i hlength
    exact meets_ok.mpr ⟨hrows, not_not.mp hlength⟩

end Parts

variable [Curve] {networkId : String} {net : NetworkRow} {rows : List NodeRow}
  {h : List (Event Reply)}

/-! ## What key requests write -/

/-- The writes of a key generation. -/
def dkgWrites (networkId : String) (coins : PartyDraws) (net : NetworkRow) (_ : List NodeRow) :
    Stmt → Prop
  | .updateNodeSecret id nodeId bytes => id = networkId ∧
      ∃ outputs, dkgOutputs net.n net.t coins = .ok outputs ∧ ∃ entry ∈ outputs.zipIdx,
        nodeId = UInt16.ofNat (entry.2 + 1) ∧ bytes = entry.1.mySecret.toBytes
  | .updateNetworkState id state pk => id = networkId ∧ state = "dkg_complete" ∧
      ∃ outputs, dkgOutputs net.n net.t coins = .ok outputs ∧ ∃ output ∈ outputs,
        pk = some output.collectivePk.toBytes
  | _ => False

/-- The writes of a refresh. -/
def refreshWrites (networkId : String) (coins : PartyDraws) (net : NetworkRow)
    (rows : List NodeRow) : Stmt → Prop
  | .updateNodeSecret id nodeId bytes => id = networkId ∧
      ∃ keys, refreshedKeys net.n net.t coins rows = .ok keys ∧ ∃ entry ∈ rows.zipIdx,
        nodeId = UInt16.ofNat entry.1.nodeId ∧
        ∃ key, (Outcome.index keys.2 entry.2 : Outcome ApiError Scalar) = .ok key ∧
          bytes = key.toBytes
  | .updateNodeEpoch _ _ => True
  | _ => False

/-- Generating keys issues its own statements and no others. -/
theorem meets_runDkg (coins : PartyDraws) :
    Meets (Issues networkId (dkgWrites networkId coins)) (fun _ _ => True) []
      (runDkg networkId coins) := by
  apply meets_fetchNetwork.bind
  rintro _ net rfl
  split
  · exact meets_fail _
  apply (meets_loadNodes net).bind
  rintro _ rows ⟨rfl, hlength⟩
  refine meets_lift_bind fun outputs houtputs => meets_lift_bind fun first hfirst => ?_
  refine (Meets.forM (I := fun h => reads networkId net rows <+: h) (List.prefix_refl _) ?_).bind ?_
  · intro entry hentry h hreads
    have hwrites : dkgWrites networkId coins net rows
        (.updateNodeSecret networkId (UInt16.ofNat (entry.2 + 1)) entry.1.mySecret.toBytes) :=
      ⟨rfl, outputs, houtputs, entry, hentry, rfl, rfl⟩
    exact meets_query (issues_write rfl hreads hlength hwrites)
      fun _ => hreads.trans (List.prefix_append _ _)
  · intro h _ hreads
    have hmem := List.mem_of_getElem? (Outcome.index_eq_ok.mp hfirst)
    have hwrites : dkgWrites networkId coins net rows
        (.updateNetworkState networkId "dkg_complete" (some first.collectivePk.toBytes)) :=
      ⟨rfl, rfl, outputs, houtputs, first, hmem, rfl⟩
    exact Meets.bind (Q := fun _ _ => True)
      (meets_query (issues_write rfl hreads hlength hwrites) fun _ => trivial)
      fun _ _ _ => meets_ok.mpr trivial

/-- So does a refresh. -/
theorem meets_refreshNetwork (coins : PartyDraws) :
    Meets (Issues networkId (refreshWrites networkId coins)) (fun _ _ => True) []
      (refreshNetwork networkId coins) := by
  apply meets_fetchNetwork.bind
  rintro _ net rfl
  split
  · exact meets_fail _
  apply (meets_loadNodes net).bind
  rintro _ rows ⟨rfl, hlength⟩
  refine meets_lift_bind fun keys hkeys => meets_lift_bind fun invariant _ => ?_
  refine (Meets.forM (I := fun h => reads networkId net rows <+: h) (List.prefix_refl _) ?_).bind
    fun _ _ _ => meets_ok.mpr trivial
  intro entry hentry h hreads
  refine meets_lift_bind fun key hkey => ?_
  have hwrites : refreshWrites networkId coins net rows
      (.updateNodeSecret networkId (UInt16.ofNat entry.1.nodeId) key.toBytes) :=
    ⟨rfl, keys, hkeys, entry, hentry, rfl, key, hkey, rfl⟩
  refine Meets.bind (Q := fun h _ => reads networkId net rows <+: h)
    (meets_query (issues_write rfl hreads hlength hwrites)
      fun _ => hreads.trans (List.prefix_append _ _)) ?_
  intro h _ hreads
  exact meets_query (issues_write rfl hreads hlength trivial)
    fun _ => hreads.trans (List.prefix_append _ _)

/-! ## What signers return and record -/

/-- `sig` is a signature of `msg` that a signer makes from the rows that it has read. -/
def SignedFrom [Cipher] (net : NetworkRow) (rows : List NodeRow) (quorum : List ParticipantId)
    (ltSks : ℕ → Scalar) (msg : List UInt8) (sig : G1Point) : Prop :=
  ∃ params members signers tagDraws result, buildParams net rows ltSks = .ok (params, members) ∧
    selectQuorum net.t quorum members = .ok signers ∧
    signWithQuorum params signers quorum msg tagDraws = .ok result ∧ sig = result.combinedSig

/-- A statement that records a signature records one that satisfies `S`. -/
def Records (S : List UInt8 → G1Point → Prop) : Stmt → Prop
  | .insertLedgerEntry entry => ∃ msg sig, S msg sig ∧
      entry.messageHash = (Ats.hashMessage msg).toBytes ∧ entry.signature = some sig.toBytes
  | .insertSignedTx tx => ∃ sig, S tx.message sig ∧ tx.signature = sig.toBytes
  | _ => True

/-- Every returned pair of a message and a signature, both in hexadecimal, satisfies `S`. -/
def Returns (S : List UInt8 → G1Point → Prop) (returned : List (String × String)) : Prop :=
  ∀ entry ∈ returned, ∃ msg sig, S msg sig ∧ ByteString.hexDecode entry.1 = .ok msg ∧
    entry.2 = ByteString.hexEncode sig.toBytes

/-- A signer writes only to the ledger and the signed transactions. -/
def signerWrites (_ : NetworkRow) (_ : List NodeRow) : Stmt → Prop
  | .insertLedgerEntry _ => True
  | .insertSignedTx _ => True
  | _ => False

/-- A signer that has read its rows and recorded only signatures made from them. -/
def Signing [Cipher] (networkId : String) (net : NetworkRow) (rows : List NodeRow)
    (quorum : List ParticipantId) (ltSks : ℕ → Scalar) (h : List (Event Reply)) : Prop :=
  reads networkId net rows <+: h ∧
    ∀ event ∈ h, Records (SignedFrom net rows quorum ltSks) event.stmt

section Signers

variable [Cipher] {quorum : List ParticipantId} {ltSks : ℕ → Scalar}
  {params : Ats.NetworkPublicParams} {members : List Member} {signers : List Ats.SignerConfig}

/-- A request that signs begins with its reads. -/
theorem Signing.start : Signing networkId net rows quorum ltSks (reads networkId net rows) := by
  refine ⟨List.prefix_refl _, ?_⟩
  intro event hevent
  simp only [reads, List.mem_cons, List.not_mem_nil, or_false] at hevent
  rcases hevent with rfl | rfl <;> trivial

/-- One more record keeps to the form of a request that signs. -/
theorem Signing.append (hh : Signing networkId net rows quorum ltSks h) {event : Event Reply}
    (hevent : Records (SignedFrom net rows quorum ltSks) event.stmt) :
    Signing networkId net rows quorum ltSks (h ++ [event]) := by
  refine ⟨hh.1.trans (List.prefix_append _ _), ?_⟩
  intro e he
  rcases List.mem_append.mp he with he | he
  · exact hh.2 e he
  · rwa [List.mem_singleton.mp he]

omit [Curve] [Cipher] in
/-- A message that is decoded was in hexadecimal digits. -/
theorem decodeMessage_eq_ok {describe : ByteString.FromHexError → String} {message : String}
    {msg : List UInt8} (hmsg : decodeMessage describe message = .ok msg) :
    ByteString.hexDecode message = .ok msg := by
  unfold decodeMessage at hmsg
  split at hmsg
  · cases hmsg
    assumption
  · cases hmsg

/-- Recording a signature made from the rows. -/
theorem meets_recordSignature (hlength : rows.length = net.n)
    (hbuild : buildParams net rows ltSks = .ok (params, members))
    (hselect : selectQuorum net.t quorum members = .ok signers) {msg : List UInt8}
    {tagDraws : ℕ → Ats.TagCoins} {result : Ats.AtsSignature}
    (hsign : signWithQuorum params signers quorum msg tagDraws = .ok result)
    (draws : MessageDraws) (hh : Signing networkId net rows quorum ltSks h) :
    Meets (Issues networkId signerWrites)
      (fun h _ => Signing networkId net rows quorum ltSks h) h
      (recordSignature networkId quorum msg result draws) := by
  have hsigned : SignedFrom net rows quorum ltSks msg result.combinedSig :=
    ⟨params, members, signers, tagDraws, result, hbuild, hselect, hsign, rfl⟩
  refine Meets.bind (Q := fun h _ => Signing networkId net rows quorum ltSks h)
    (meets_query (issues_write rfl hh.1 hlength trivial) fun _ => ?_) ?_
  · exact hh.append ⟨msg, _, hsigned, rfl, rfl⟩
  · intro h _ hh
    exact meets_query (issues_write rfl hh.1 hlength trivial)
      fun _ => hh.append ⟨_, hsigned, rfl⟩

/-- What `signMessage` returns and records is made from the rows that it has read. -/
theorem meets_signMessage (req : SignRequest) (draws : SignDraws) :
    Meets (Issues networkId signerWrites)
      (fun h response => ∃ net rows, Signing networkId net rows req.quorum draws.ltSks h ∧
        Returns (SignedFrom net rows req.quorum draws.ltSks)
          [(req.message, response.combinedSigHex)]) [] (signMessage networkId req draws) := by
  apply meets_fetchNetwork.bind
  rintro _ net rfl
  refine meets_lift_bind fun _ _ => meets_lift_bind fun msg hmsg => ?_
  apply (meets_loadNodes net).bind
  rintro _ rows ⟨rfl, hlength⟩
  refine meets_lift_bind fun built hbuild => meets_lift_bind fun signers hselect =>
    meets_lift_bind fun result hsign => ?_
  apply (meets_recordSignature hlength hbuild hselect hsign _ Signing.start).bind
  intro h _ hh
  refine meets_ok.mpr ⟨net, rows, hh, ?_⟩
  intro entry hentry
  rw [List.mem_singleton.mp hentry]
  exact ⟨msg, _, ⟨_, _, signers, _, result, hbuild, hselect, hsign, rfl⟩,
    decodeMessage_eq_ok hmsg, rfl⟩

/-- What `batchSign` returns and records is made from the rows that it has read. -/
theorem meets_batchSign (req : BatchSignRequest) (draws : BatchDraws) :
    Meets (Issues networkId signerWrites)
      (fun h response => ∃ net rows, Signing networkId net rows req.quorum draws.ltSks h ∧
        Returns (SignedFrom net rows req.quorum draws.ltSks)
          (response.signatures.map fun entry => (entry.messageHex, entry.combinedSigHex)))
      [] (batchSign networkId req draws) := by
  unfold batchSign
  split
  · exact meets_fail _
  split
  · exact meets_fail _
  apply meets_fetchNetwork.bind
  rintro _ net rfl
  refine meets_lift_bind fun _ _ => ?_
  apply (meets_loadNodes net).bind
  rintro _ rows ⟨rfl, hlength⟩
  refine meets_lift_bind fun built hbuild => meets_lift_bind fun signers hselect => ?_
  refine (Meets.mapM (I := fun h => Signing networkId net rows req.quorum draws.ltSks h)
    (T := fun entry => Returns (SignedFrom net rows req.quorum draws.ltSks)
      [(entry.messageHex, entry.combinedSigHex)]) Signing.start ?_).bind ?_
  · intro entry _ h hh
    refine meets_lift_bind fun msg hmsg => meets_lift_bind fun result hsign => ?_
    refine (meets_recordSignature hlength hbuild hselect hsign _ hh).bind fun h _ hh => ?_
    refine meets_ok.mpr ⟨hh, ?_⟩
    intro pair hpair
    rw [List.mem_singleton.mp hpair]
    exact ⟨msg, _, ⟨_, _, signers, _, result, hbuild, hselect, hsign, rfl⟩,
      decodeMessage_eq_ok hmsg, rfl⟩
  · rintro h signatures ⟨hh, hsignatures⟩
    refine meets_ok.mpr ⟨net, rows, hh, ?_⟩
    intro pair hpair
    obtain ⟨entry, hentry, rfl⟩ := List.mem_map.mp hpair
    exact hsignatures entry hentry _ (List.mem_singleton.mpr rfl)

end Signers

/-! ## The system of all requests -/

section System

variable {ι : Type} [DecidableEq ι]

/-- Handle a request. -/
def Request.handle [Cipher] (networkId : String) : (request : Request) → Handler request.Response
  | .key request => request.handle networkId
  | .sign req draws => signMessage networkId req draws
  | .batch req draws => batchSign networkId req draws

/-- The writes of a request. -/
def Request.writes (networkId : String) :
    Request → NetworkRow → List NodeRow → Stmt → Prop
  | .key (.dkg coins) => dkgWrites networkId coins
  | .key (.refresh coins) => refreshWrites networkId coins
  | _ => signerWrites

/-- The statements that requests to a network write with. -/
def Stmt.isNetworkWrite : Stmt → Bool
  | .updateNodeSecret _ _ _ => true
  | .updateNetworkState _ _ _ => true
  | .updateNodeEpoch _ _ => true
  | .insertLedgerEntry _ => true
  | .insertSignedTx _ => true
  | _ => false

/-- A request writes to rows that exist and to the records; it creates nothing else. -/
theorem Request.isNetworkWrite_of_writes {request : Request} {net : NetworkRow}
    {rows : List NodeRow} {s : Stmt} (h : request.writes networkId net rows s) :
    s.isNetworkWrite = true := by
  cases request with
  | key request => cases request <;> cases s <;> first | rfl | exact h.elim
  | sign req draws => cases s <;> first | rfl | exact h.elim
  | batch req draws => cases s <;> first | rfl | exact h.elim

/-- The requested signers. -/
def Request.quorum : Request → List ParticipantId
  | .sign req _ => req.quorum
  | .batch req _ => req.quorum
  | .key _ => []

/-- The long-term keys that a signer draws for the nodes. -/
def Request.ltSks : Request → ℕ → Scalar
  | .sign _ draws => draws.ltSks
  | .batch _ draws => draws.ltSks
  | .key _ => fun _ => 0

/-- The messages of a response with their signatures, in hexadecimal. -/
def Request.returned : (request : Request) → request.Response → List (String × String)
  | .sign req _, response => [(req.message, response.combinedSigHex)]
  | .batch _ _, response =>
    response.signatures.map fun entry => (entry.messageHex, entry.combinedSigHex)
  | .key _, _ => []

/-- Whether the request asks for signatures. -/
def Request.isSigner : Request → Bool
  | .key _ => false
  | _ => true

/-- What a signer returns and records is made from the rows that it has read. -/
def Request.Made [Cipher] (networkId : String) (request : Request) (h : List (Event Reply))
    (response : request.Response) : Prop :=
  request.isSigner = true → ∃ net rows,
    Signing networkId net rows request.quorum request.ltSks h ∧
    Returns (SignedFrom net rows request.quorum request.ltSks) (request.returned response)

/-- Requests to one network, before their first statement. -/
def system [Cipher] (networkId : String) (requests : ι → Request) (db : Db) :
    System Reply (Fault ApiError) (fun i => (requests i).Response) Db where
  store := db
  programs i := (requests i).handle networkId
  log := []

/-- The requests after steps in the order of the schedule. -/
def sideBySide [Cipher] (networkId : String) (requests : ι → Request) (db : Db)
    (schedule : List ι) : System Reply (Fault ApiError) (fun i => (requests i).Response) Db :=
  (system networkId requests db).runSchedule exec schedule

/-- A request issues its own statements and answers what it has made. -/
theorem meets_handle [Cipher] (request : Request) :
    Meets (Issues networkId (request.writes networkId)) (request.Made networkId) []
      (request.handle networkId) := by
  cases request with
  | key request =>
    cases request with
    | dkg coins =>
      exact (meets_runDkg coins).bind fun _ _ _ => meets_ok.mpr fun hsigner => by cases hsigner
    | refresh coins =>
      exact (meets_refreshNetwork coins).bind fun _ _ _ => meets_ok.mpr fun hsigner => by
        cases hsigner
  | sign req draws =>
    exact Meets.mono (meets_signMessage req draws) fun _ _ hmade _ => hmade
  | batch req draws =>
    exact Meets.mono (meets_batchSign req draws) fun _ _ hmade _ => hmade

end System

end Sigimora.Server
