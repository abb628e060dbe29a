import Mathlib.Algebra.Algebra.Bilinear
import Sigimora.Math.Pairing

/-!
# The curve in the exponent

Every group of order `curveOrder` is isomorphic to the scalar field once a
generator is fixed, and under these isomorphisms the pairing is multiplication.
This file builds the resulting `Curve`. It shows that the laws of `Curve` are
consistent, and it is where concrete runs of the development are evaluated.
-/

namespace Sigimora

namespace ExponentCurve

/-- A scalar encoded at the end of a longer field of zero bytes. -/
def padded (zeros : ℕ) (s : Scalar) : List UInt8 := List.replicate zeros 0 ++ s.toBytes

/-- Decode a padded scalar; only its own encoding is accepted. -/
def unpadded (zeros : ℕ) (bytes : List UInt8) : Option Scalar :=
  match Scalar.fromBytes (bytes.drop zeros) with
  | .ok s => if padded zeros s = bytes then some s else none
  | .error _ => none

/-- Padding adds as many bytes as it says. -/
theorem length_padded (zeros : ℕ) (s : Scalar) :
    (padded zeros s).length = zeros + Scalar.byteSize := by
  simp [padded]

/-- The bytes that are read as a scalar are its padding and nothing else. -/
theorem unpadded_eq_some {zeros : ℕ} {bytes : List UInt8} {s : Scalar} :
    unpadded zeros bytes = some s ↔ padded zeros s = bytes := by
  constructor
  · intro h
    unfold unpadded at h
    split at h
    · split at h
      · rename_i heq
        cases h
        exact heq
      · cases h
    · cases h
  · rintro rfl
    have hdrop : (padded zeros s).drop zeros = s.toBytes := by
      rw [padded, List.drop_append_of_le_length (by simp), List.drop_eq_nil_of_le (by simp),
        List.nil_append]
    simp only [unpadded, hdrop, Scalar.fromBytes_toBytes, if_true]

/-- The last 32 bytes, standing in for a digest. -/
def digest (bytes : List UInt8) : List UInt8 :=
  ByteString.bigEndian 32 (ByteString.ofBigEndian bytes)

/-- The digest of an encoded scalar is that encoding. -/
theorem digest_toBytes (s : Scalar) : digest s.toBytes = s.toBytes := by
  have h := ByteString.bigEndian_ofBigEndian s.toBytes
  rwa [Scalar.length_toBytes] at h

end ExponentCurve

open ExponentCurve in
/-- The curve whose points are their own discrete logarithms. -/
@[reducible] def exponentCurve : Curve where
  G1 := Scalar
  G2 := Scalar
  Gt := Scalar
  g1 := 1
  g2 := 1
  exists_smul_g1 P := ⟨P, (mul_one P).symm⟩
  exists_smul_g2 Q := ⟨Q, (mul_one Q).symm⟩
  e := LinearMap.mul Scalar Scalar
  e_generators_ne_zero := by
    rw [LinearMap.mul_apply', mul_one]
    exact one_ne_zero
  g1ToBytes := padded 16
  g2ToBytes := padded 64
  g1FromBytes := unpadded 16
  g2FromBytes := unpadded 64
  length_g1ToBytes := length_padded 16
  length_g2ToBytes := length_padded 64
  g1FromBytes_eq_some := unpadded_eq_some
  g2FromBytes_eq_some := unpadded_eq_some
  hashToG1 msg _ := (ByteString.ofBigEndian msg : ℕ)
  sha256 := digest
  gtMemory := Scalar.toBytes
  eq_zero_of_digest x h := by
    rw [digest_toBytes, digest_toBytes] at h
    have hdecode := congrArg Scalar.fromBytes h
    rw [Scalar.fromBytes_toBytes, Scalar.fromBytes_toBytes] at hdecode
    exact Except.ok.inj hdecode

end Sigimora
