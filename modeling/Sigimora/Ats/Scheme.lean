import Sigimora.Crypto.Cipher
import Sigimora.Crypto.Error
import Sigimora.Crypto.Shamir
import Sigimora.Math.Pairing

/-!
# Accountable threshold signatures

Partial signatures with encrypted accountability tags, their aggregation by
Lagrange coefficients, public verification, and the tracing of signers with the
tracking key.
-/

namespace Sigimora.Ats

/-- Errors in ATS operations. -/
inductive AtsError
  | insufficientPartials (threshold got : ℕ)
  | epochMismatch (expected got : UInt64)
  | invalidPartialSig (index : ParticipantId)
  | nonMember (index : ParticipantId)
  | verificationFailed
  | cryptoError (e : CryptoError)
  | mathError (e : MathError)
  deriving DecidableEq, Repr

instance : ToString AtsError where
  toString
    | .insufficientPartials threshold got => s!"need at least {threshold} partial sigs, got {got}"
    | .epochMismatch expected got => s!"epoch mismatch: expected {expected}, got {got}"
    | .invalidPartialSig index => s!"partial signature from index {index} is invalid"
    | .nonMember index => s!"signer {index} is not a registered member"
    | .verificationFailed => "ATS signature verification failed"
    | .cryptoError e => s!"crypto error: {e}"
    | .mathError e => s!"math error: {e}"

variable [Curve]

/-- The key pair whose secret half identifies signers. -/
structure TrackingKeyPair where
  secret : Scalar
  publicKey : G2Point

/-- The key pair of a secret. -/
def TrackingKeyPair.fromSecret (secret : Scalar) : TrackingKeyPair where
  secret := secret
  publicKey := secret • G2Point.generator

/-- Public parameters, available to all verifiers. -/
structure NetworkPublicParams where
  n : ℕ
  threshold : ℕ
  collectivePk : G2Point
  trackingPk : G2Point
  memberPks : List (ParticipantId × G2Point)
  memberLtPks : List (ParticipantId × G2Point)

/-- The signing keys of one node. -/
structure SignerConfig where
  nodeId : ParticipantId
  dkgShare : Scalar
  dkgSharePk : G2Point
  ltSk : Scalar
  ltPk : G2Point

def SignerConfig.new (nodeId : ParticipantId) (dkgShare ltSk : Scalar) : SignerConfig where
  nodeId := nodeId
  dkgShare := dkgShare
  dkgSharePk := dkgShare • G2Point.generator
  ltSk := ltSk
  ltPk := ltSk • G2Point.generator

/-- An accountability tag, encrypted under the tracking public key. -/
structure EncryptedTag where
  nodeId : ParticipantId
  ephemeralPk : G2Point
  ciphertext : List UInt8
  nonce : List UInt8

/-- The contents of a tag. -/
structure DecryptedTag where
  nodeId : ParticipantId
  sigmaI : G1Point
  tagI : G1Point
  ltPk : G2Point

/-- The partial signature of one signer. -/
structure PartialSignature where
  nodeId : ParticipantId
  sigma : G1Point
  encryptedTag : EncryptedTag

/-- The keys that the quorum claims. -/
structure MembershipProof where
  quorumPk : G2Point
  individualPks : List (ParticipantId × G2Point)

/-- A combined signature. -/
structure AtsSignature where
  combinedSig : G1Point
  quorum : List ParticipantId
  bitmapCommitment : G1Point
  encryptedTags : List EncryptedTag
  membershipProof : MembershipProof
  epoch : UInt64

/-- The domain separation tag of signed messages. -/
def messageTag : List UInt8 := byteLiteral "SIGIMORA_ATS"

/-- The point that is signed for a message. -/
def hashMessage (msg : List UInt8) : G1Point := hashToG1 msg messageTag

/-! ## Tags -/

section Tags

variable [Cipher]

/-- The symmetric key derived from the shared point. -/
def tagKey (shared : G2Point) : List UInt8 :=
  Cipher.hkdf shared.toBytes (byteLiteral "sigimora-ats-tag")

/-- Node id, partial signature, tag and long-term key, one after the other. -/
def tagPlaintext (nodeId : ParticipantId) (sigmaI tagI : G1Point) (ltPk : G2Point) :
    List UInt8 :=
  ByteString.littleEndian 2 nodeId.toNat ++ sigmaI.toBytes ++ tagI.toBytes ++ ltPk.toBytes

/-- The random draws of one encryption: the ephemeral key and the nonce word. -/
structure TagCoins where
  r : Scalar
  nonce : UInt64

/-- Encrypt a tag under the tracking public key. -/
def encryptTag (nodeId : ParticipantId) (sigmaI tagI : G1Point) (ltPk trackingPk : G2Point)
    (coins : TagCoins) : EncryptedTag :=
  let key := tagKey (coins.r • trackingPk)
  let nonce := ByteString.littleEndian 8 coins.nonce.toNat ++ List.replicate 4 0
  { nodeId
    ephemeralPk := coins.r • G2Point.generator
    ciphertext := Cipher.encrypt key nonce (tagPlaintext nodeId sigmaI tagI ltPk)
    nonce }

/-- The points of a tag, read from a plaintext of sufficient length. -/
def parseTag (plaintext : List UInt8) : Outcome MathError DecryptedTag := do
  let sigmaI ← G1Point.fromBytes ((plaintext.drop 2).take 48)
  let tagI ← G1Point.fromBytes ((plaintext.drop 50).take 48)
  let ltPk ← G2Point.fromBytes ((plaintext.drop 98).take 96)
  return { nodeId := UInt16.ofNat (ByteString.ofLittleEndian (plaintext.take 2))
           sigmaI, tagI, ltPk }

/-- Decrypt a tag with the tracking secret. -/
def decryptTag (trackingSk : Scalar) (enc : EncryptedTag) : Option DecryptedTag :=
  let key := tagKey (trackingSk • enc.ephemeralPk)
  match Cipher.decrypt key enc.nonce enc.ciphertext with
  | none => none
  | some plaintext =>
    if plaintext.length < 2 + 48 + 48 + 96 then none else (parseTag plaintext).toOption

end Tags

/-! ## Signing -/

/-- Create a partial signature with its encrypted tag. -/
def signPartial [Cipher] (signer : SignerConfig) (msg : List UInt8) (trackingPk : G2Point)
    (coins : TagCoins) : PartialSignature :=
  let h := hashMessage msg
  let sigmaI := signer.dkgShare • h
  let tagI := signer.ltSk • sigmaI
  { nodeId := signer.nodeId
    sigma := sigmaI
    encryptedTag := encryptTag signer.nodeId sigmaI tagI signer.ltPk trackingPk coins }

/-- The commitment that binds the aggregator to the quorum. -/
def createBitmapCommitment (quorum : List ParticipantId) (aggregatorId : ParticipantId) :
    G1Point :=
  let sorted := quorum.mergeSort fun a b => a ≤ b
  let bytes := sorted.flatMap (fun id => ByteString.littleEndian 2 id.toNat) ++
    ByteString.littleEndian 2 aggregatorId.toNat
  hashToG1 bytes (byteLiteral "SIGIMORA_BITMAP_COMMIT")

/-- Combine partial signatures. -/
def aggregate (partials : List PartialSignature) (params : NetworkPublicParams) (epoch : UInt64)
    (aggregatorId : ParticipantId) : Outcome AtsError AtsSignature := do
  if partials.length < params.threshold then
    Outcome.fail (.insufficientPartials params.threshold partials.length)
  else
    let quorum := partials.map PartialSignature.nodeId
    let lambdas ← Shamir.lagrangeAtZero quorum
    let individualPks := quorum.filterMap fun id =>
      params.memberPks.find? fun entry => entry.1 == id
    return {
      combinedSig := Shamir.weightedSum (partials.map PartialSignature.sigma) lambdas
      quorum
      bitmapCommitment := createBitmapCommitment quorum aggregatorId
      encryptedTags := partials.map PartialSignature.encryptedTag
      membershipProof := {
        quorumPk := Shamir.weightedSum (individualPks.map Prod.snd) lambdas
        individualPks }
      epoch }

/-- Verify a signature with public keys only. -/
def verify (params : NetworkPublicParams) (msg : List UInt8) (sig : AtsSignature) : Bool :=
  if sig.quorum.length < params.threshold then false
  else if ¬ sig.membershipProof.individualPks.all fun entry =>
      params.memberPks.any fun mem => mem.1 == entry.1 && mem.2 == entry.2 then false
  else if ¬ ctVerifyBlsSignature sig.combinedSig (hashMessage msg) params.collectivePk then false
  else true

/-! ## Tracing -/

/-- Whether the partial signature fails under the key of its node id. There is
nothing to check when the node id is unknown. -/
def partialRejected (params : NetworkPublicParams) (h : G1Point) (decrypted : DecryptedTag) :
    Bool :=
  let pkI := (params.memberPks.find? fun entry => entry.1 == decrypted.nodeId).map Prod.snd
  match pkI with
  | some pk => ! ctVerifyBlsSignature decrypted.sigmaI h pk
  | none => false

/-- The member that one tag identifies. -/
def traceTag [Cipher] (trackingSk : Scalar) (params : NetworkPublicParams) (h : G1Point)
    (encTag : EncryptedTag) : Option (ParticipantId × G2Point) :=
  match decryptTag trackingSk encTag with
  | none => none
  | some decrypted =>
    if partialRejected params h decrypted then none
    else if ¬ ctPairingCheck decrypted.tagI G2Point.generator (-decrypted.sigmaI) decrypted.ltPk
      then none
    else params.memberLtPks.find? fun entry => entry.2 == decrypted.ltPk

/-- Identify the signers with the tracking secret. -/
def trace [Cipher] (trackingSk : Scalar) (params : NetworkPublicParams) (msg : List UInt8)
    (sig : AtsSignature) : List (ParticipantId × G2Point) :=
  sig.encryptedTags.filterMap (traceTag trackingSk params (hashMessage msg))

end Sigimora.Ats
