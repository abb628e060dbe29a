import Sigimora.Math.ExponentCurve
import Sigimora.Mcp.Protocol

/-!
# Handshakes

Two participants introduce themselves with a handshake, which carries a
signature under the key that it presents. The listener and the connecting side
check it with two copies of the same code. The connecting side rejects a proof
that is no encoded point; the listener then skips the check.
-/

namespace Sigimora.Mcp

variable [Curve]

/-- The serialization of messages by the `bincode` crate. -/
class Bincode where
  serialize : McpMessage → List UInt8
  deserialize : List UInt8 → Except String McpMessage

/-- A registered connection. The channel to its writer is left out. -/
structure PeerConnection where
  nodeId : ParticipantId
  addr : String
  authenticated : Bool
  deriving DecidableEq

/-- A participant in the network: its id, its identity key and the key that is
drawn when the derived one is no canonical scalar. -/
structure NetworkNode where
  nodeId : ParticipantId
  identitySk : Option Scalar
  fallbackSk : Scalar

/-- A connection as a task sees it: what it reads first, and whether a write succeeds. -/
structure Link where
  received : Outcome McpError (List UInt8)
  write : List UInt8 → Outcome McpError Unit

/-- The message that is signed in a handshake. -/
def proofMessage (sender : ParticipantId) (timestamp : UInt64) : List UInt8 :=
  byteLiteral s!"SIGIMORA-HANDSHAKE:{sender}:{timestamp}"

/-- The point that is signed in a handshake. -/
def handshakeHash (sender : ParticipantId) (timestamp : UInt64) : G1Point :=
  hashToG1 (proofMessage sender timestamp) (byteLiteral "SIGIMORA-ID")

/-- The length of an encoded signature. -/
def signatureSize : ℕ := 48

omit [Curve] in
/-- The identity key of a participant without a stored one. -/
def deriveIdentityKey [Sha3] (nodeId : ParticipantId) (fallbackSk : Scalar) : Scalar :=
  let hash := Sha3.sha3
    (byteLiteral "SIGIMORA-MCP-IDENTITY-KEY" ++ ByteString.littleEndian 2 nodeId.toNat)
  match Scalar.fromBytes hash with
  | .ok sk => sk
  | .error _ => fallbackSk

/-- The handshake that a participant sends. -/
def NetworkNode.handshake [Sha3] (node : NetworkNode) (timestamp : UInt64) : McpMessage :=
  let identitySk := node.identitySk.getD (deriveIdentityKey node.nodeId node.fallbackSk)
  .handshake node.nodeId (identitySk • G2Point.generator)
    (G1Point.toBytes (identitySk • handshakeHash node.nodeId timestamp)) timestamp

/-! ## The two checks -/

/-- Whether the listener turns a handshake away. -/
def incomingRejected (sender : ParticipantId) (publicKey : G2Point) (identityProof : List UInt8)
    (timestamp : UInt64) : Bool :=
  if identityProof.length = signatureSize then
    match G1Point.fromBytes identityProof with
    | .ok proofSig => ! ctVerifyBlsSignature proofSig (handshakeHash sender timestamp) publicKey
    | .error _ => false
  else false

/-- The connecting side's check of a response. -/
def checkResponse : McpMessage → Outcome McpError ParticipantId
  | .handshake sender publicKey identityProof timestamp =>
    if identityProof.length ≠ signatureSize then
      Outcome.fail (.networkError "invalid identity proof length")
    else do
      let proofSig ← Outcome.mapErr (fun _ => .networkError "invalid identity proof point")
        (G1Point.fromBytes identityProof)
      if ¬ ctVerifyBlsSignature proofSig (handshakeHash sender timestamp) publicKey then
        Outcome.fail (.networkError "peer identity proof invalid")
      else .ok sender
  | _ => Outcome.fail (.networkError "expected handshake response")

variable [Sha3] [Bincode]

/-- The connection that a listener registers, if any. -/
def handleIncoming (node : NetworkNode) (now : UInt64) (link : Link) : Option PeerConnection :=
  match link.received with
  | .error _ => none
  | .ok handshakeData =>
    match Bincode.deserialize handshakeData with
    | .ok (.handshake sender publicKey identityProof timestamp) =>
      if incomingRejected sender publicKey identityProof timestamp then none
      else
        match link.write (Bincode.serialize (node.handshake now)) with
        | .error _ => none
        | .ok () => some { nodeId := sender, addr := "", authenticated := true }
    | _ => none

/-- The connection that the connecting side registers. -/
def connectToPeer (node : NetworkNode) (now : UInt64) (addr : String)
    (link : Outcome McpError Link) : Outcome McpError PeerConnection := do
  let link ← link
  link.write (Bincode.serialize (node.handshake now))
  let responseData ← link.received
  match Bincode.deserialize responseData with
  | .error e => Outcome.fail (.serializationError s!"deserialize handshake: {e}")
  | .ok response => do
    let peerId ← checkResponse response
    return { nodeId := peerId, addr, authenticated := true }

/-! ## Proven peers -/

omit [Sha3] [Bincode] in
/-- The message is a handshake of the peer with a signature under the key that it presents. -/
def Proven (message : McpMessage) (peer : ParticipantId) : Prop :=
  ∃ publicKey sigma timestamp,
    message = .handshake peer publicKey (G1Point.toBytes sigma) timestamp ∧
    pairing sigma G2Point.generator = pairing (handshakeHash peer timestamp) publicKey

omit [Sha3] [Bincode] in
/-- The message is a handshake whose proof is no encoded point. -/
def Unsigned (message : McpMessage) : Prop :=
  ∃ sender publicKey identityProof timestamp,
    message = .handshake sender publicKey identityProof timestamp ∧
    ∀ sigma, G1Point.toBytes sigma ≠ identityProof

/-- A listener admits only proven peers, the same as the connecting side. -/
structure AdmitsProven (node : NetworkNode) (now : UInt64) (data : List UInt8) : Prop where
  proven : ∀ write peer, handleIncoming node now ⟨.ok data, write⟩ = some peer →
    peer.authenticated = true →
    ∃ message, Bincode.deserialize data = .ok message ∧ Proven message peer.nodeId
  sameAsResponse : ∀ peer addr,
    (∃ write connection, handleIncoming node now ⟨.ok data, write⟩ = some connection ∧
      connection.nodeId = peer) ↔
    ∃ write connection, connectToPeer node now addr (.ok ⟨.ok data, write⟩) = .ok connection ∧
      connection.nodeId = peer

omit [Sha3] [Bincode] in
/-- A proof is an encoded point, or both checks see that it is none. -/
theorem decoded_or_not (identityProof : List UInt8) :
    (∃ sigma : G1Point, G1Point.toBytes sigma = identityProof ∧
      identityProof.length = signatureSize ∧ G1Point.fromBytes identityProof = .ok sigma) ∨
    (∀ sigma : G1Point, G1Point.toBytes sigma ≠ identityProof) ∧
      (identityProof.length = signatureSize →
        ∃ e, G1Point.fromBytes identityProof = .error e) := by
  match hdecode : G1Point.fromBytes identityProof with
  | .ok sigma =>
    have hsigma := G1Point.fromBytes_eq_ok_iff.mp hdecode
    refine Or.inl ⟨sigma, hsigma, ?_, rfl⟩
    rw [← hsigma]
    exact G1Point.length_toBytes sigma
  | .error e =>
    refine Or.inr ⟨?_, fun _ => ⟨e, rfl⟩⟩
    intro sigma hsigma
    rw [G1Point.fromBytes_eq_ok_iff.mpr hsigma] at hdecode
    cases hdecode

omit [Sha3] [Bincode] in
/-- The connecting side accepts exactly the proven peers. -/
theorem checkResponse_eq_ok_iff {message : McpMessage} {peer : ParticipantId} :
    checkResponse message = .ok peer ↔ Proven message peer := by
  constructor
  · intro h
    cases message with
    | handshake sender publicKey identityProof timestamp =>
      simp only [checkResponse] at h
      by_cases hlength : identityProof.length = signatureSize
      · rw [if_neg (not_not.mpr hlength)] at h
        obtain ⟨sigma, hdecode, hrest⟩ := Outcome.bind_eq_ok.mp h
        have hsigma := G1Point.fromBytes_eq_ok_iff.mp (Outcome.mapErr_eq_ok_iff.mp hdecode)
        by_cases hvalid : ctVerifyBlsSignature sigma (handshakeHash sender timestamp) publicKey
        · rw [if_neg (not_not.mpr hvalid)] at hrest
          cases hrest
          refine ⟨publicKey, sigma, timestamp, ?_, ctVerifyBlsSignature_iff.mp hvalid⟩
          rw [hsigma]
        · rw [if_pos hvalid] at hrest
          cases hrest
      · rw [if_pos hlength] at h
        cases h
    | _ => cases h
  · rintro ⟨publicKey, sigma, timestamp, rfl, hvalid⟩
    have hlength : (G1Point.toBytes sigma).length = signatureSize := G1Point.length_toBytes sigma
    have haccept : ctVerifyBlsSignature sigma (handshakeHash peer timestamp) publicKey = true :=
      ctVerifyBlsSignature_iff.mpr hvalid
    simp only [checkResponse]
    rw [if_neg (not_not.mpr hlength), G1Point.fromBytes_toBytes, Outcome.mapErr_ok,
      Outcome.ok_bind, if_neg (not_not.mpr haccept)]

omit [Sha3] [Bincode] in
/-- The listener turns away a handshake with a wrong signature, and no other. -/
theorem incomingRejected_iff {sender : ParticipantId} {publicKey : G2Point}
    {identityProof : List UInt8} {timestamp : UInt64} :
    incomingRejected sender publicKey identityProof timestamp = true ↔
      ∃ sigma, G1Point.toBytes sigma = identityProof ∧
        pairing sigma G2Point.generator ≠ pairing (handshakeHash sender timestamp) publicKey := by
  unfold incomingRejected
  rcases decoded_or_not identityProof with ⟨sigma, hsigma, hlength, hdecode⟩ | ⟨hnone, herror⟩
  · rw [if_pos hlength, hdecode]
    simp only [Bool.not_eq_true', ← Bool.not_eq_true, ctVerifyBlsSignature_iff]
    constructor
    · intro hwrong
      exact ⟨sigma, hsigma, hwrong⟩
    · rintro ⟨other, hother, hwrong⟩
      rwa [G1Point.toBytes_injective (hother.trans hsigma.symm)] at hwrong
  · refine iff_of_false ?_ ?_
    · split
      · rename_i hlength
        obtain ⟨e, he⟩ := herror hlength
        rw [he]
        exact Bool.false_ne_true
      · exact Bool.false_ne_true
    · rintro ⟨sigma, hsigma, _⟩
      exact hnone sigma hsigma

/-- What a listener registers. -/
theorem handleIncoming_eq_some_iff {node : NetworkNode} {now : UInt64} {data : List UInt8}
    {write : List UInt8 → Outcome McpError Unit} {connection : PeerConnection} :
    handleIncoming node now ⟨.ok data, write⟩ = some connection ↔
      ∃ sender publicKey identityProof timestamp,
        Bincode.deserialize data =
          .ok (.handshake sender publicKey identityProof timestamp) ∧
        incomingRejected sender publicKey identityProof timestamp = false ∧
        write (Bincode.serialize (node.handshake now)) = .ok () ∧
        connection = { nodeId := sender, addr := "", authenticated := true } := by
  simp only [handleIncoming]
  constructor
  · intro h
    split at h
    · rename_i sender publicKey identityProof timestamp hmessage
      by_cases hrejected : incomingRejected sender publicKey identityProof timestamp
      · rw [if_pos hrejected] at h
        cases h
      · rw [if_neg hrejected] at h
        split at h
        · cases h
        · rename_i hwrite
          exact ⟨sender, publicKey, identityProof, timestamp, hmessage,
            by simpa using hrejected, hwrite, (Option.some.inj h).symm⟩
    · cases h
  · rintro ⟨sender, publicKey, identityProof, timestamp, hmessage, haccepted, hwrite, rfl⟩
    rw [hmessage]
    simp only [haccepted, hwrite]
    rfl

/-- What the connecting side registers. -/
theorem connectToPeer_eq_ok_iff {node : NetworkNode} {now : UInt64} {addr : String}
    {data : List UInt8} {write : List UInt8 → Outcome McpError Unit}
    {connection : PeerConnection} :
    connectToPeer node now addr (.ok ⟨.ok data, write⟩) = .ok connection ↔
      write (Bincode.serialize (node.handshake now)) = .ok () ∧
      ∃ message peer, Bincode.deserialize data = .ok message ∧ Proven message peer ∧
        connection = { nodeId := peer, addr, authenticated := true } := by
  unfold connectToPeer
  rw [Outcome.ok_bind, Outcome.bind_eq_ok]
  constructor
  · rintro ⟨_, hwrite, hrest⟩
    refine ⟨hwrite, ?_⟩
    rw [Outcome.ok_bind] at hrest
    split at hrest
    · cases hrest
    · rename_i message hmessage
      obtain ⟨peer, hcheck, hconnection⟩ := Outcome.bind_eq_ok.mp hrest
      cases hconnection
      exact ⟨message, peer, hmessage, checkResponse_eq_ok_iff.mp hcheck, rfl⟩
  · rintro ⟨hwrite, message, peer, hmessage, hproven, rfl⟩
    refine ⟨(), hwrite, ?_⟩
    rw [Outcome.ok_bind, hmessage]
    simp only [checkResponse_eq_ok_iff.mpr hproven, Outcome.ok_bind, Outcome.pure_eq_ok]

omit [Sha3] [Bincode] in
/-- The listener keeps a handshake that is proven or carries no point. -/
theorem incomingRejected_eq_false_iff {sender : ParticipantId} {publicKey : G2Point}
    {identityProof : List UInt8} {timestamp : UInt64} :
    incomingRejected sender publicKey identityProof timestamp = false ↔
      Proven (.handshake sender publicKey identityProof timestamp) sender ∨
      Unsigned (.handshake sender publicKey identityProof timestamp) := by
  rw [← Bool.not_eq_true, incomingRejected_iff]
  push Not
  constructor
  · intro hkept
    rcases decoded_or_not identityProof with ⟨sigma, hsigma, _⟩ | ⟨hnone, _⟩
    · refine Or.inl ⟨publicKey, sigma, timestamp, ?_, hkept sigma hsigma⟩
      rw [hsigma]
    · exact Or.inr ⟨sender, publicKey, identityProof, timestamp, rfl, hnone⟩
  · rintro (⟨_, sigma, _, hmessage, hvalid⟩ | ⟨_, _, _, _, hmessage, hnone⟩) other hother
    · cases hmessage
      rw [G1Point.toBytes_injective hother]
      exact hvalid
    · cases hmessage
      exact absurd hother (hnone other)

omit [Sha3] [Bincode] in
/-- A proven peer has signed. -/
theorem Proven.not_unsigned {message : McpMessage} {peer : ParticipantId}
    (h : Proven message peer) : ¬ Unsigned message := by
  obtain ⟨publicKey, sigma, timestamp, rfl, _⟩ := h
  rintro ⟨_, _, _, _, hmessage, hnone⟩
  cases hmessage
  exact hnone sigma rfl

/-- A listener that can answer registers the sender of a handshake that is proven
or carries no point. -/
theorem exists_handleIncoming_iff {node : NetworkNode} {now : UInt64} {data : List UInt8}
    {write : List UInt8 → Outcome McpError Unit} {peer : ParticipantId} :
    (∃ connection, handleIncoming node now ⟨.ok data, write⟩ = some connection ∧
      connection.nodeId = peer) ↔
    write (Bincode.serialize (node.handshake now)) = .ok () ∧
      ∃ publicKey identityProof timestamp,
        Bincode.deserialize data = .ok (.handshake peer publicKey identityProof timestamp) ∧
        (Proven (.handshake peer publicKey identityProof timestamp) peer ∨
          Unsigned (.handshake peer publicKey identityProof timestamp)) := by
  constructor
  · rintro ⟨connection, hregistered, rfl⟩
    obtain ⟨sender, publicKey, identityProof, timestamp, hmessage, hkept, hwrite, rfl⟩ :=
      handleIncoming_eq_some_iff.mp hregistered
    exact ⟨hwrite, publicKey, identityProof, timestamp, hmessage,
      incomingRejected_eq_false_iff.mp hkept⟩
  · rintro ⟨hwrite, publicKey, identityProof, timestamp, hmessage, hkept⟩
    refine ⟨_, handleIncoming_eq_some_iff.mpr ⟨peer, publicKey, identityProof, timestamp,
      hmessage, incomingRejected_eq_false_iff.mpr hkept, hwrite, rfl⟩, rfl⟩

/-- **Admitted peers.** A listener admits only proven peers, the same ones as the
connecting side, exactly when the message is no handshake without an encoded point. -/
theorem admitsProven_iff (node : NetworkNode) (now : UInt64) (data : List UInt8) :
    AdmitsProven node now data ↔
      ∀ message, Bincode.deserialize data = .ok message → ¬ Unsigned message := by
  constructor
  · rintro h message hmessage hunsigned
    obtain ⟨sender, publicKey, identityProof, timestamp, rfl, _⟩ := id hunsigned
    let write (_ : List UInt8) : Outcome McpError Unit := .ok ()
    have hregistered := handleIncoming_eq_some_iff.mpr ⟨sender, publicKey, identityProof, timestamp,
      hmessage, incomingRejected_eq_false_iff.mpr (Or.inr hunsigned),
      (rfl : write (Bincode.serialize (node.handshake now)) = .ok ()), rfl⟩
    obtain ⟨proved, hproved, hproven⟩ := h.proven write _ hregistered rfl
    rw [hmessage, Except.ok.injEq] at hproved
    rw [← hproved] at hproven
    exact hproven.not_unsigned hunsigned
  · intro hsigned
    refine ⟨?_, ?_⟩
    · intro write connection hregistered _
      obtain ⟨_, publicKey, identityProof, timestamp, hmessage, hkept⟩ :=
        exists_handleIncoming_iff.mp ⟨connection, hregistered, rfl⟩
      refine ⟨_, hmessage, ?_⟩
      rcases hkept with hproven | hunsigned
      · exact hproven
      · exact absurd hunsigned (hsigned _ hmessage)
    · intro peer addr
      constructor
      · rintro ⟨write, hregistered⟩
        obtain ⟨hwrite, publicKey, identityProof, timestamp, hmessage, hkept⟩ :=
          exists_handleIncoming_iff.mp hregistered
        rcases hkept with hproven | hunsigned
        · exact ⟨write, _, connectToPeer_eq_ok_iff.mpr ⟨hwrite, _, _, hmessage, hproven, rfl⟩, rfl⟩
        · exact absurd hunsigned (hsigned _ hmessage)
      · rintro ⟨write, connection, hregistered, rfl⟩
        obtain ⟨hwrite, message, peer, hmessage, hproven, rfl⟩ :=
          connectToPeer_eq_ok_iff.mp hregistered
        obtain ⟨publicKey, sigma, timestamp, rfl, _⟩ := id hproven
        exact ⟨write, exists_handleIncoming_iff.mpr
          ⟨hwrite, publicKey, _, timestamp, hmessage, Or.inl hproven⟩⟩

/-! ## A handshake without a proof -/

/-- The encoding of a handshake: the variant, the id, the key and the proof with
their lengths, and the timestamp, all numbers little-endian. -/
def encodeHandshake (sender : ParticipantId) (publicKey : G2Point) (identityProof : List UInt8)
    (timestamp : UInt64) : List UInt8 :=
  ByteString.littleEndian 4 0 ++ ByteString.littleEndian 2 sender.toNat ++
    ByteString.littleEndian 8 G2Point.byteSize ++ publicKey.toBytes ++
    ByteString.littleEndian 8 identityProof.length ++ identityProof ++
    ByteString.littleEndian 8 timestamp.toNat

omit [Sha3] [Bincode] in
/-- A serialization that handles handshakes of the participant 7 with the generator as key. -/
@[reducible] def emptyProofBincode : Bincode where
  serialize
    | .handshake sender publicKey identityProof timestamp =>
      encodeHandshake sender publicKey identityProof timestamp
    | _ => []
  deserialize data :=
    if data = encodeHandshake 7 G2Point.generator [] 0 then
      .ok (.handshake 7 G2Point.generator [] 0)
    else .error "invalid value"

omit [Curve] [Sha3] [Bincode] in
/-- A listener admits a peer whose proof is empty. -/
theorem empty_proof_admitted :
    letI := exponentCurve
    letI := truncatingSha3
    letI := emptyProofBincode
    ¬ ∀ (node : NetworkNode) (now : UInt64) (data : List UInt8), AdmitsProven node now data := by
  let := exponentCurve
  let := truncatingSha3
  let := emptyProofBincode
  intro h
  let message : McpMessage := .handshake 7 G2Point.generator [] 0
  have hmessage : Bincode.deserialize (encodeHandshake 7 G2Point.generator [] 0) =
      .ok message := if_pos rfl
  have hunsigned : ∀ sigma, G1Point.toBytes sigma ≠ [] := by
    intro sigma hempty
    have hlength := G1Point.length_toBytes sigma
    rw [hempty] at hlength
    cases hlength
  have hkept : incomingRejected 7 (G2Point.generator : G2Point) [] 0 = false :=
    incomingRejected_eq_false_iff.mpr (Or.inr ⟨_, _, _, _, rfl, hunsigned⟩)
  let node : NetworkNode := ⟨1, some 5, 0⟩
  let write (_ : List UInt8) : Outcome McpError Unit := .ok ()
  obtain ⟨proved, hproved, hproven⟩ := (h node 0 _).proven write _
    (handleIncoming_eq_some_iff.mpr ⟨7, _, _, _, hmessage, hkept, rfl, rfl⟩) rfl
  rw [hmessage, Except.ok.injEq] at hproved
  rw [← hproved] at hproven
  exact hproven.not_unsigned ⟨_, _, _, _, rfl, hunsigned⟩

end Sigimora.Mcp
