import Sigimora.Math.Scalar

/-!
# Errors of the cryptographic layer
-/

namespace Sigimora

/-- Errors in cryptographic operations. -/
inductive CryptoError
  | insufficientShares (threshold got : ℕ)
  | shareVerificationFailed (index : ParticipantId)
  | signatureVerificationFailed
  | popVerificationFailed
  | dkgError (message : String)
  | encryptionError (message : String)
  | mathError (e : MathError)
  | invalidParameter (message : String)
  | invalidPublicKey
  | invalidSignature
  | invalidShares
  | serializationError (message : String)
  deriving DecidableEq, Repr

instance : ToString CryptoError where
  toString
    | .insufficientShares threshold got => s!"need at least {threshold} shares, got {got}"
    | .shareVerificationFailed index => s!"share verification failed for index {index}"
    | .signatureVerificationFailed => "signature verification failed"
    | .popVerificationFailed => "proof of possession verification failed"
    | .dkgError message => s!"DKG error: {message}"
    | .encryptionError message => s!"encryption error: {message}"
    | .mathError e => s!"math error: {e}"
    | .invalidParameter message => s!"invalid parameter: {message}"
    | .invalidPublicKey => "invalid public key"
    | .invalidSignature => "invalid signature"
    | .invalidShares => "invalid shares"
    | .serializationError message => s!"serialization error: {message}"

end Sigimora
