import Sigimora.Crypto.Dkg

/-!
# BLS signatures

Signatures of single keys, their aggregation on one message, and proofs of
possession. Since the pairing with the generator is injective, every check accepts
exactly one point.
-/

namespace Sigimora.Bls

variable [Curve]

structure SecretKey where
  scalar : Scalar

structure PublicKey where
  point : G2Point

structure Signature where
  point : G1Point

namespace SecretKey

def publicKey (key : SecretKey) : PublicKey := ⟨key.scalar • G2Point.generator⟩

def sign (key : SecretKey) (msg : List UInt8) : Signature :=
  let h := hashToG1 msg (byteLiteral "SIGIMORA-BLS")
  ⟨key.scalar • h⟩

end SecretKey

namespace PublicKey

def toBytes (key : PublicKey) : List UInt8 := key.point.toBytes

/-- Check a signature of one key. -/
def verify (key : PublicKey) (msg : List UInt8) (sig : Signature) : Bool :=
  let h := hashToG1 msg (byteLiteral "SIGIMORA-BLS")
  ctVerifyBlsSignature sig.point h key.point

/-- Check a proof of possession. -/
def verifyPop (key : PublicKey) (pop : Signature) : Bool :=
  let h := hashToG1 key.toBytes (byteLiteral "SIGIMORA-POP")
  ctVerifyBlsSignature pop.point h key.point

/-- Add up the keys. -/
def aggregate (keys : List PublicKey) : PublicKey :=
  ⟨keys.foldl (fun agg key => agg + key.point) 0⟩

end PublicKey

/-- The proof of possession of a key. -/
def SecretKey.proofOfPossession (key : SecretKey) : Signature :=
  let h := hashToG1 key.publicKey.toBytes (byteLiteral "SIGIMORA-POP")
  ⟨key.scalar • h⟩

namespace Signature

/-- Add up the signatures. -/
def aggregate (sigs : List Signature) : Signature :=
  ⟨sigs.foldl (fun agg sig => agg + sig.point) 0⟩

/-- Check the aggregate of signatures on one message under the aggregate of the keys. -/
def verifyAggregate (aggPk : PublicKey) (msg : List UInt8) (aggSig : Signature) : Bool :=
  let h := hashToG1 msg (byteLiteral "SIGIMORA-BLS")
  ctVerifyBlsSignature aggSig.point h aggPk.point

end Signature

/-! ## Aggregates -/

/-- The aggregate of public keys is the public key of the sum. -/
theorem aggregate_publicKeys (keys : List SecretKey) :
    PublicKey.aggregate (keys.map SecretKey.publicKey) =
      SecretKey.publicKey ⟨(keys.map SecretKey.scalar).sum⟩ := by
  rw [PublicKey.aggregate, Accumulate.foldl_add, zero_add, List.map_map, SecretKey.publicKey,
    List.sum_smul, List.map_map]
  rfl

/-- Adding up the signatures is signing with the sum of the keys. -/
theorem aggregate_signatures (keys : List SecretKey) (msg : List UInt8) :
    Signature.aggregate (keys.map fun key => key.sign msg) =
      SecretKey.sign ⟨(keys.map SecretKey.scalar).sum⟩ msg := by
  rw [Signature.aggregate, Accumulate.foldl_add, zero_add, List.map_map, SecretKey.sign,
    List.sum_smul, List.map_map]
  rfl

/-- A key accepts its signature of a message and no other point. -/
theorem verify_publicKey_iff {key : SecretKey} {msg : List UInt8} {sig : Signature} :
    key.publicKey.verify msg sig = true ↔ sig = key.sign msg := by
  obtain ⟨point⟩ := sig
  rw [PublicKey.verify, SecretKey.publicKey, ctVerifyBlsSignature_smul_iff, SecretKey.sign,
    Signature.mk.injEq]

/-- An aggregate is accepted just if it is the signature of the sum. -/
theorem verifyAggregate_iff {keys : List SecretKey} {msg : List UInt8} {sig : Signature} :
    Signature.verifyAggregate (PublicKey.aggregate (keys.map SecretKey.publicKey)) msg sig =
        true ↔
      sig = Signature.aggregate (keys.map fun key => key.sign msg) := by
  rw [aggregate_publicKeys, aggregate_signatures, ← verify_publicKey_iff]
  rfl

/-! ## Proofs of possession -/

/-- A proof of possession is accepted just if it is the one that the key makes. -/
theorem verifyPop_publicKey_iff {key : SecretKey} {pop : Signature} :
    key.publicKey.verifyPop pop = true ↔ pop = key.proofOfPossession := by
  obtain ⟨point⟩ := pop
  rw [SecretKey.proofOfPossession, Signature.mk.injEq, ← ctVerifyBlsSignature_smul_iff]
  rfl

/-- **Aggregation.** The aggregate of the keys accepts the aggregate of their signatures and no
other point, and so do the two checks of a proof of possession. -/
theorem checks_accept_one_point :
    (∀ (keys : List SecretKey) (msg : List UInt8) (sig : Signature),
      Signature.verifyAggregate (PublicKey.aggregate (keys.map SecretKey.publicKey)) msg sig =
          true ↔
        sig = Signature.aggregate (keys.map fun key => key.sign msg)) ∧
    (∀ (key : SecretKey) (pop : Signature),
      key.publicKey.verifyPop pop = true ↔ pop = key.proofOfPossession) ∧
    ∀ (sk : Scalar) (pop : G1Point), verifyPop (sk • G2Point.generator) pop = true ↔
      pop = generatePop sk (sk • G2Point.generator) :=
  ⟨fun _ _ _ => verifyAggregate_iff, fun _ _ => verifyPop_publicKey_iff,
    fun _ _ => verifyPop_smul_iff⟩

end Sigimora.Bls
