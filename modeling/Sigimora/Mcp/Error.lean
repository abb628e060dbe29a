import Sigimora.Crypto.Error

/-!
# Errors of the orchestration layer
-/

namespace Sigimora.Mcp

/-- Errors in the multi-party protocol. -/
inductive McpError
  | protocolError (message : String)
  | dkgError (message : String)
  | signatureError (message : String)
  | zkpVerificationFailed (message : String)
  | insufficientParticipants (got need : ℕ)
  | invalidShare (participant : ParticipantId)
  | thresholdNotReached (got need : ℕ)
  | serializationError (message : String)
  | networkError (message : String)
  | invalidStateTransition (source target : String)
  | cheatingDetected (participant : ParticipantId) (message : String)
  deriving DecidableEq, Repr

/-- The debug format of a string, for texts without characters that it escapes. -/
def quoted (text : String) : String := "\"" ++ text ++ "\""

/-- The debug format of an error of the math layer. -/
def debugMathError : MathError → String
  | .invalidScalar => "InvalidScalar"
  | .invalidG1Point => "InvalidG1Point"
  | .invalidG2Point => "InvalidG2Point"
  | .notInvertible => "NotInvertible"
  | .deserialization message => s!"Deserialization({quoted message})"

/-- The debug format of an error of the cryptographic layer. -/
def debugCryptoError : CryptoError → String
  | .insufficientShares threshold got =>
    s!"InsufficientShares \x7b threshold: {threshold}, got: {got} \x7d"
  | .shareVerificationFailed index => s!"ShareVerificationFailed({index})"
  | .signatureVerificationFailed => "SignatureVerificationFailed"
  | .popVerificationFailed => "PopVerificationFailed"
  | .dkgError message => s!"DkgError({quoted message})"
  | .encryptionError message => s!"EncryptionError({quoted message})"
  | .mathError e => s!"MathError({debugMathError e})"
  | .invalidParameter message => s!"InvalidParameter({quoted message})"
  | .invalidPublicKey => "InvalidPublicKey"
  | .invalidSignature => "InvalidSignature"
  | .invalidShares => "InvalidShares"
  | .serializationError message => s!"SerializationError({quoted message})"

end Sigimora.Mcp
