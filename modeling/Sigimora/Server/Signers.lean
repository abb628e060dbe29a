import Sigimora.Server.Faults
import Sigimora.Server.Requests

/-!
# The signers of a request

Both signing handlers look the requested ids up among the rows of the network,
and then sign and record one message after another with the nodes that they have
found. This is the case for any rows. Repeated ids make the aggregation panic, and
nothing else does.
-/

namespace Sigimora.Server

open Handler Program

/-! ## Selected rows -/

/-- The id of a node, as the signing handlers read it. -/
def NodeRow.participant (row : NodeRow) : ParticipantId := UInt16.ofNat row.nodeId

/-- The rows of the requested ids, in the order of the request. -/
def quorumRows (rows : List NodeRow) (quorum : List ParticipantId) : List NodeRow :=
  quorum.filterMap fun qid => rows.find? fun row => row.participant = qid

/-- The requested ids that are ids of nodes. -/
def foundIds (rows : List NodeRow) (quorum : List ParticipantId) : List ParticipantId :=
  quorum.filter fun qid => qid ∈ rows.map NodeRow.participant

/-- The rows of a quorum are those of the ids that were found. -/
theorem map_participant_quorumRows (rows : List NodeRow) (quorum : List ParticipantId) :
    (quorumRows rows quorum).map NodeRow.participant = foundIds rows quorum := by
  unfold quorumRows foundIds
  induction quorum with
  | nil => rfl
  | cons qid quorum ih =>
    cases hfind : rows.find? fun row => row.participant = qid with
    | none =>
      have hnot : qid ∉ rows.map NodeRow.participant := by
        rintro hmem
        obtain ⟨row, hrow, hid⟩ := List.mem_map.mp hmem
        simpa [hid] using List.find?_eq_none.mp hfind row hrow
      rw [List.filterMap_cons_none (by exact hfind), ih,
        List.filter_cons_of_neg (by simpa using hnot)]
    | some row =>
      have hid : row.participant = qid := by simpa using List.find?_some hfind
      have hmem : qid ∈ rows.map NodeRow.participant :=
        List.mem_map.mpr ⟨row, List.mem_of_find?_eq_some hfind, hid⟩
      rw [List.filterMap_cons_some (by exact hfind), List.map_cons, ih, hid,
        List.filter_cons_of_pos (by simpa using hmem)]

variable [Curve]

section Selection

variable {rows : List NodeRow} {quorum : List ParticipantId}

/-- The member has the id and the key share of the row. -/
def LoadedFrom (m : Member) (row : NodeRow) : Prop :=
  m.id = row.participant ∧ m.config.nodeId = m.id ∧ decodeKeyShare row = .ok m.config.dkgShare

/-- The signer has the id and the key share of the row. -/
def SignsFor (signer : Ats.SignerConfig) (row : NodeRow) : Prop :=
  signer.nodeId = row.participant ∧ decodeKeyShare row = .ok signer.dkgShare

/-- Every row is loaded. -/
theorem buildParams_loads {net : NetworkRow} {ltSks : ℕ → Scalar}
    {params : Ats.NetworkPublicParams} {members : List Member}
    (h : buildParams net rows ltSks = .ok (params, members)) :
    params.threshold = net.t + 1 ∧ List.Forall₂ LoadedFrom members rows := by
  obtain ⟨hthreshold, _, _, _, hloaded⟩ := buildParams_eq_ok h
  refine ⟨hthreshold, hloaded.imp ?_⟩
  rintro m row ⟨ltSk, hm⟩
  obtain ⟨pk, _, hm⟩ := Outcome.bind_eq_ok.mp hm
  obtain ⟨share, hshare, hm⟩ := Outcome.bind_eq_ok.mp hm
  cases hm
  exact ⟨rfl, rfl, hshare⟩

/-- An id is looked up among the members as among the rows. -/
theorem find_loadedFrom {members : List Member} (h : List.Forall₂ LoadedFrom members rows)
    (qid : ParticipantId) :
    ((members.find? fun m => m.id = qid) = none ∧
      (rows.find? fun row => row.participant = qid) = none) ∨
    ∃ m row, (members.find? fun m => m.id = qid) = some m ∧
      (rows.find? fun row => row.participant = qid) = some row ∧ LoadedFrom m row := by
  induction h with
  | nil => exact Or.inl ⟨rfl, rfl⟩
  | @cons m row members rows hm _ ih =>
    by_cases hid : m.id = qid
    · have hrow : row.participant = qid := hm.1.symm.trans hid
      refine Or.inr ⟨m, row, ?_, ?_, hm⟩
      · rw [List.find?_cons_of_pos (by simpa using hid)]
      · rw [List.find?_cons_of_pos (by simpa using hrow)]
    · have hrow : row.participant ≠ qid := hm.1 ▸ hid
      rw [List.find?_cons_of_neg (by simpa using hid), List.find?_cons_of_neg (by simpa using hrow)]
      exact ih

/-- The signers are those of the rows of the requested ids. -/
theorem filterMap_signsFor {members : List Member} (h : List.Forall₂ LoadedFrom members rows)
    (quorum : List ParticipantId) :
    List.Forall₂ SignsFor
      (quorum.filterMap fun qid => (members.find? fun m => m.id = qid).map Member.config)
      (quorumRows rows quorum) := by
  unfold quorumRows
  induction quorum with
  | nil => exact List.Forall₂.nil
  | cons qid quorum ih =>
    rcases find_loadedFrom h qid with ⟨hm, hrow⟩ | ⟨m, row, hm, hrow, hid, hconfig, hshare⟩
    · rwa [List.filterMap_cons_none (by rw [hm]; rfl), List.filterMap_cons_none (by exact hrow)]
    · rw [List.filterMap_cons_some (by rw [hm]; rfl), List.filterMap_cons_some (by exact hrow)]
      exact List.Forall₂.cons ⟨hconfig.trans hid, hshare⟩ ih

/-- The signers have the ids that were found, in their order. -/
theorem map_nodeId_of_signsFor {signers : List Ats.SignerConfig}
    (h : List.Forall₂ SignsFor signers (quorumRows rows quorum)) :
    signers.map Ats.SignerConfig.nodeId = foundIds rows quorum := by
  rw [← map_participant_quorumRows, ← List.forall₂_eq_eq_eq, List.forall₂_map_left_iff,
    List.forall₂_map_right_iff]
  exact h.imp fun _ _ hs => hs.1

/-- Selected signers are enough, and have the found ids. -/
theorem selectQuorum_signsFor {t : ℕ} {members : List Member} {signers : List Ats.SignerConfig}
    (h : List.Forall₂ LoadedFrom members rows)
    (hselect : selectQuorum t quorum members = .ok signers) :
    t + 1 ≤ signers.length ∧ List.Forall₂ SignsFor signers (quorumRows rows quorum) := by
  simp only [selectQuorum] at hselect
  split at hselect
  · cases hselect
  · rename_i hsize
    cases hselect
    exact ⟨not_lt.mp hsize, filterMap_signsFor h quorum⟩

end Selection

/-! ## Aggregation -/

section Aggregation

variable [Cipher] {quorum : List ParticipantId} {params : Ats.NetworkPublicParams}
  {signers : List Ats.SignerConfig}

/-- Enough different signers sign. -/
theorem signWithQuorum_of_nodup (hsize : params.threshold ≤ signers.length)
    (hnodup : (signers.map Ats.SignerConfig.nodeId).Nodup) (hquorum : quorum ≠ [])
    (msg : List UInt8) (tagDraws : ℕ → Ats.TagCoins) :
    ∃ sig, signWithQuorum params signers quorum msg tagDraws = .ok sig ∧
      sig.quorum = signers.map Ats.SignerConfig.nodeId := by
  obtain ⟨first, rest, rfl⟩ := List.exists_cons_of_ne_nil hquorum
  have haggregate := Ats.aggregate_eq_ok (signers.zipIdx.map fun entry =>
      Ats.signPartial entry.1 msg params.trackingPk (tagDraws entry.2))
    (by rw [List.length_map, List.length_zipIdx]; exact hsize)
    (by rw [map_nodeId_signPartial]; exact hnodup) 0 first
  exact ⟨_, congrArg (Outcome.mapErr ApiError.ofAts) haggregate, map_nodeId_signPartial _ _ _ _⟩

/-- With a repeated signer the aggregation panics. -/
theorem signWithQuorum_of_not_nodup (hsize : params.threshold ≤ signers.length)
    (hrepeated : ¬ (signers.map Ats.SignerConfig.nodeId).Nodup) (hquorum : quorum ≠ [])
    (msg : List UInt8) (tagDraws : ℕ → Ats.TagCoins) :
    signWithQuorum params signers quorum msg tagDraws =
      Outcome.panic "Lagrange denominator must be invertible (indices must be distinct)" := by
  obtain ⟨first, rest, rfl⟩ := List.exists_cons_of_ne_nil hquorum
  have hids := map_nodeId_signPartial signers msg params.trackingPk tagDraws
  have hlength : signers.length = (signers.zipIdx.map fun entry =>
      Ats.signPartial entry.1 msg params.trackingPk (tagDraws entry.2)).length := by
    rw [List.length_map, List.length_zipIdx]
  have haggregate := Ats.aggregate_of_not_nodup (hlength ▸ hsize) (hids ▸ hrepeated) 0 first
  exact congrArg (Outcome.mapErr ApiError.ofAts) haggregate

end Aggregation

/-! ## Requests -/

/-- A request for signatures. -/
inductive SigningRequest
  | sign (req : SignRequest) (draws : SignDraws)
  | batch (req : BatchSignRequest) (draws : BatchDraws)

namespace SigningRequest

def quorum : SigningRequest → List ParticipantId
  | sign req _ => req.quorum
  | batch req _ => req.quorum

def ltSks : SigningRequest → ℕ → Scalar
  | sign _ draws => draws.ltSks
  | batch _ draws => draws.ltSks

/-- The messages with their positions. -/
def entries : SigningRequest → List (String × ℕ)
  | sign req _ => [(req.message, 0)]
  | batch req _ => req.messages.zipIdx

/-- The draws of the messages, by their positions. -/
def draws : SigningRequest → ℕ → MessageDraws
  | sign _ draws => fun _ => draws.message
  | batch _ draws => draws.message

variable [Cipher] {networkId : String} {db : Db} {faults : Faults DbError}

/-- Handle the request; of the response the signers and the signatures are kept. -/
def handle (networkId : String) : SigningRequest → Handler (List ParticipantId × List String)
  | sign req draws => do
    let response ← signMessage networkId req draws
    return (response.quorum, [response.combinedSigHex])
  | batch req draws => do
    let response ← batchSign networkId req draws
    return (response.quorum, response.signatures.map BatchSignEntry.combinedSigHex)

/-- The checks that come before the first statement. -/
def accept : SigningRequest → Outcome ApiError Unit
  | sign _ _ => .ok ()
  | batch req _ =>
    if req.messages.isEmpty then Outcome.fail (.badRequest "messages list must not be empty")
    else if req.messages.length > 100 then
      Outcome.fail (.badRequest "maximum 100 messages per batch request")
    else .ok ()

/-- The checks on the row of the network. -/
def check (net : NetworkRow) : SigningRequest → Outcome ApiError Unit
  | sign req _ => do
    checkSignable net req.quorum
    let _ ← decodeMessage (fun e => s!"invalid hex message: {e}") req.message
    return ()
  | batch req _ => checkSignable net req.quorum

/-- The signers that the request names. -/
def select (net : NetworkRow) (rows : List NodeRow) (request : SigningRequest) :
    Outcome ApiError (Ats.NetworkPublicParams × List Ats.SignerConfig) := do
  let built ← buildParams net rows request.ltSks
  let signers ← selectQuorum net.t request.quorum built.2
  return (built.1, signers)

/-- Sign and record the messages. -/
def record (networkId : String) (params : Ats.NetworkPublicParams)
    (signers : List Ats.SignerConfig) (request : SigningRequest) :
    Handler (List ParticipantId × List String) := do
  let done ← request.entries.mapM
    (signBatchEntry networkId request.quorum params signers request.draws)
  return (request.quorum, done.map BatchSignEntry.combinedSigHex)

/-- Handle the request; of the response the signers and the entries of the messages are kept. -/
def answer (networkId : String) :
    SigningRequest → Handler (List ParticipantId × List BatchSignEntry)
  | sign req draws => do
    let response ← signMessage networkId req draws
    return (response.quorum, [{
      messageHex := req.message
      txId := response.txId
      combinedSigHex := response.combinedSigHex
      messageHashHex := response.messageHashHex }])
  | batch req draws => do
    let response ← batchSign networkId req draws
    return (response.quorum, response.signatures)

/-- **Shape of a signing request.** It checks, reads the rows and selects the signers
before it signs and records the first message. -/
theorem answer_eq (request : SigningRequest) : request.answer networkId = (do
    lift request.accept
    let net ← fetchNetwork networkId
    lift (request.check net)
    let rows ← loadNodes networkId net.n
    let selected ← lift (request.select net rows)
    let done ← request.entries.mapM
      (signBatchEntry networkId request.quorum selected.1 selected.2 request.draws)
    return (request.quorum, done)) := by
  cases request with
  | sign req draws =>
    simp only [answer, signMessage, accept, check, select, quorum, entries,
      SigningRequest.draws, ltSks, lift_bind, lift_ok, lift_pure, ok_bind, Program.bind_assoc,
      List.mapM_cons, List.mapM_nil, signBatchEntry]
    refine congrArg (fetchNetwork networkId >>= ·) (funext fun net => ?_)
    refine congrArg (lift _ >>= ·) (funext fun _ => ?_)
    cases hmsg : decodeMessage (fun e => s!"invalid hex message: {e}") req.message with
    | error fault => rfl
    | ok msg =>
      have hagain : decodeMessage (fun e => s!"invalid hex message '{req.message}': {e}")
          req.message = .ok msg := by
        rw [decodeMessage, decodeMessage_eq_ok hmsg]
      rw [hagain]
      rfl
  | batch req draws =>
    simp only [answer, batchSign, accept, check, select, quorum, entries,
      SigningRequest.draws, ltSks]
    by_cases hempty : req.messages.isEmpty = true
    · rw [if_pos hempty, if_pos hempty]
      rfl
    rw [if_neg hempty, if_neg hempty]
    by_cases hmany : req.messages.length > 100
    · rw [if_pos hmany, if_pos hmany]
      rfl
    rw [if_neg hmany, if_neg hmany]
    simp only [lift_bind, lift_ok, lift_pure, ok_bind, Program.bind_assoc]
    rfl

/-- A request returns its answer, with the signatures alone. -/
theorem handle_eq_answer (request : SigningRequest) : request.handle networkId = (do
    let answered ← request.answer networkId
    return (answered.1, answered.2.map BatchSignEntry.combinedSigHex)) := by
  cases request with
  | sign req draws =>
    rw [answer, Program.bind_assoc]
    rfl
  | batch req draws =>
    rw [answer, Program.bind_assoc]
    rfl

/-- The request records once it has selected the signers. -/
theorem handle_eq (request : SigningRequest) : request.handle networkId = (do
    lift request.accept
    let net ← fetchNetwork networkId
    lift (request.check net)
    let rows ← loadNodes networkId net.n
    let selected ← lift (request.select net rows)
    request.record networkId selected.1 selected.2) := by
  rw [handle_eq_answer, answer_eq]
  simp only [Program.bind_assoc, record]
  rfl

/-! ### How far a request gets -/

omit [Curve] [Cipher] in
/-- No quorum makes the check of a request panic. -/
theorem noPanic_checkSignable (net : NetworkRow) (quorum : List ParticipantId) :
    (checkSignable net quorum).NoPanic := by
  unfold checkSignable
  split
  · exact Outcome.noPanic_fail _
  · split
    · exact Outcome.noPanic_fail _
    · exact Outcome.noPanic_ok _

omit [Curve] [Cipher] in
/-- No text makes the decoding of a message panic. -/
theorem noPanic_decodeMessage (describe : ByteString.FromHexError → String) (message : String) :
    (decodeMessage describe message).NoPanic := by
  unfold decodeMessage
  split
  · exact Outcome.noPanic_ok _
  · exact Outcome.noPanic_fail _

omit [Curve] [Cipher] in
/-- Accepting a request does not panic. -/
theorem noPanic_accept (request : SigningRequest) : request.accept.NoPanic := by
  cases request with
  | sign req draws => exact Outcome.noPanic_ok _
  | batch req draws =>
    rw [accept]
    split
    · exact Outcome.noPanic_fail _
    · split
      · exact Outcome.noPanic_fail _
      · exact Outcome.noPanic_ok _

omit [Curve] [Cipher] in
/-- Checking it does not. -/
theorem noPanic_check (net : NetworkRow) (request : SigningRequest) :
    (request.check net).NoPanic := by
  cases request with
  | sign req draws =>
    refine Outcome.noPanic_bind_iff.mpr ⟨noPanic_checkSignable net _, fun _ _ => ?_⟩
    exact Outcome.noPanic_bind_iff.mpr
      ⟨noPanic_decodeMessage _ _, fun _ _ => Outcome.noPanic_ok _⟩
  | batch req draws => exact noPanic_checkSignable net _

/-- The checks of the request pass, and it has selected the signers. -/
def Prepares (networkId : String) (db : Db) (request : SigningRequest)
    (params : Ats.NetworkPublicParams) (signers : List Ats.SignerConfig) : Prop :=
  request.accept = .ok () ∧ ∃ net, db.getNetwork networkId = some net ∧
    request.check net = .ok () ∧ (db.getNodesByNetwork networkId).length = net.n ∧
    request.select net (db.getNodesByNetwork networkId) = .ok (params, signers)

/-- The request stops before it has recorded anything, or it goes on to record. -/
theorem run_handle_cases (request : SigningRequest) :
    (∃ fault after, (request.handle networkId).run execFaulty (db, faults) =
        (.error fault, db, after) ∧ ∀ message, fault = .panic message →
      ∃ net, db.getNetwork networkId = some net ∧
        request.select net (db.getNodesByNetwork networkId) = .error (.panic message)) ∨
    ∃ params signers, request.Prepares networkId db params signers ∧
      (∀ i < 2, faults i = none) ∧ (request.handle networkId).run execFaulty (db, faults) =
        (request.record networkId params signers).run execFaulty (db, faults.drop 2) := by
  rw [handle_eq]
  cases haccept : request.accept with
  | error fault =>
    refine Or.inl ⟨fault, faults, rfl, ?_⟩
    rintro message rfl
    exact (noPanic_accept request message haccept).elim
  | ok _ =>
  rw [lift_ok, ok_bind]
  rcases run_fetchNetwork_faulty networkId _ with ⟨_, e, hrun⟩ | ⟨net, hnone, hnet, hrun⟩
  · exact Or.inl ⟨_, _, hrun, nofun⟩
  rw [hrun]
  cases hcheck : request.check net with
  | error fault =>
    refine Or.inl ⟨fault, faults.drop 1, rfl, ?_⟩
    rintro message rfl
    exact (noPanic_check net request message hcheck).elim
  | ok _ =>
  rw [lift_ok, ok_bind]
  rcases run_loadNodes_faulty networkId net.n _ with ⟨_, e, hrun⟩ | ⟨hnone', hlength, hrun⟩
  · exact Or.inl ⟨_, _, hrun, nofun⟩
  rw [hrun, Faults.drop_drop]
  cases hselect : request.select net (db.getNodesByNetwork networkId) with
  | error fault =>
    refine Or.inl ⟨fault, _, rfl, ?_⟩
    rintro message rfl
    exact ⟨net, hnet, hselect⟩
  | ok selected =>
    refine Or.inr ⟨selected.1, selected.2, ⟨haccept, net, hnet, hcheck, hlength, hselect⟩, ?_, rfl⟩
    intro i hi
    obtain rfl | rfl : i = 0 ∨ i = 1 := by omega
    · exact hnone
    · exact hnone'

/-- A request that finds its signers goes on with its messages. -/
theorem run_handle_of_prepares {request : SigningRequest} {params : Ats.NetworkPublicParams}
    {signers : List Ats.SignerConfig} (h : request.Prepares networkId db params signers)
    (hclear : ∀ i < 2, faults i = none) :
    (request.handle networkId).run execFaulty (db, faults) =
      (request.record networkId params signers).run execFaulty (db, faults.drop 2) := by
  obtain ⟨haccept, net, hnet, hcheck, hlength, hselect⟩ := h
  rw [handle_eq, haccept, lift_ok, ok_bind,
    run_bind_of_ok (run_fetchNetwork_of_some (hclear 0 (by decide)) hnet), hcheck, lift_ok, ok_bind,
    run_bind_of_ok (run_loadNodes_of_length (hclear 1 (by decide)) hlength), hselect,
    Faults.drop_drop]
  rfl

omit [Cipher] in
/-- The selected signers are those of the rows, and enough of them. -/
theorem Prepares.selected {request : SigningRequest} {params : Ats.NetworkPublicParams}
    {signers : List Ats.SignerConfig} (h : request.Prepares networkId db params signers) :
    params.threshold ≤ signers.length ∧ request.quorum ≠ [] ∧
      List.Forall₂ SignsFor signers (quorumRows (db.getNodesByNetwork networkId) request.quorum) ∧
      ∃ net, db.getNetwork networkId = some net ∧ params.threshold = net.t + 1 ∧
        (db.getNodesByNetwork networkId).length = net.n := by
  obtain ⟨_, net, hnet, _, hlength, hselect⟩ := h
  obtain ⟨⟨built, members⟩, hbuild, hselect⟩ := Outcome.bind_eq_ok.mp hselect
  obtain ⟨found, hfound, hselect⟩ := Outcome.bind_eq_ok.mp hselect
  cases hselect
  obtain ⟨hthreshold, hloaded⟩ := buildParams_loads hbuild
  obtain ⟨hsize, hsigners⟩ := selectQuorum_signsFor hloaded hfound
  refine ⟨hthreshold ▸ hsize, ?_, hsigners, net, hnet, hthreshold, hlength⟩
  intro hempty
  rw [hempty] at hsigners
  have hnone : signers = [] := List.forall₂_nil_right_iff.mp hsigners
  rw [hnone] at hsize
  exact absurd hsize (by simp)

omit [Cipher] in
/-- A prepared request has a message. -/
theorem Prepares.exists_entries {request : SigningRequest}
    {params : Ats.NetworkPublicParams} {signers : List Ats.SignerConfig}
    (h : request.Prepares networkId db params signers) :
    ∃ entry entries, request.entries = entry :: entries := by
  obtain ⟨haccept, _⟩ := h
  cases request with
  | sign req draws => exact ⟨_, _, rfl⟩
  | batch req draws =>
    rw [accept] at haccept
    cases hmessages : req.messages with
    | nil =>
      rw [hmessages] at haccept
      cases haccept
    | cons message messages =>
      exact ⟨(message, 0), messages.zipIdx 1, by rw [SigningRequest.entries, hmessages]; rfl⟩

end SigningRequest

end Sigimora.Server
