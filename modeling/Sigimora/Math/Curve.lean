import Mathlib.LinearAlgebra.BilinearMap
import Sigimora.Math.Scalar

/-!
# The curve library

The groups, the pairing and the encodings come from `blstrs` and `blst`, and the
digest from `sha2`. The development takes them as the class `Curve`, whose laws
are what it assumes of these libraries: groups of order `curveOrder` with known
generators, a bilinear pairing that does not vanish on the generators,
encodings that are inverse to their decoders, and a digest under which no
element of the target group collides with the identity.
-/

namespace Sigimora

/-- The groups with their pairing, encodings and hash functions. -/
class Curve where
  G1 : Type
  G2 : Type
  Gt : Type
  [addCommGroupG1 : AddCommGroup G1]
  [addCommGroupG2 : AddCommGroup G2]
  [addCommGroupGt : AddCommGroup Gt]
  [moduleG1 : Module Scalar G1]
  [moduleG2 : Module Scalar G2]
  [moduleGt : Module Scalar Gt]
  [decidableEqG1 : DecidableEq G1]
  [decidableEqG2 : DecidableEq G2]
  [decidableEqGt : DecidableEq Gt]
  /-- The standard generators. -/
  g1 : G1
  g2 : G2
  exists_smul_g1 : ∀ P : G1, ∃ a : Scalar, P = a • g1
  exists_smul_g2 : ∀ Q : G2, ∃ a : Scalar, Q = a • g2
  /-- The optimal Ate pairing, written additively as in `blstrs`. -/
  e : G1 →ₗ[Scalar] G2 →ₗ[Scalar] Gt
  e_generators_ne_zero : e g1 g2 ≠ 0
  /-- Compressed encodings, of 48 and 96 bytes. -/
  g1ToBytes : G1 → List UInt8
  g2ToBytes : G2 → List UInt8
  g1FromBytes : List UInt8 → Option G1
  g2FromBytes : List UInt8 → Option G2
  length_g1ToBytes : ∀ P, (g1ToBytes P).length = 48
  length_g2ToBytes : ∀ Q, (g2ToBytes Q).length = 96
  g1FromBytes_eq_some : ∀ {bytes P}, g1FromBytes bytes = some P ↔ g1ToBytes P = bytes
  g2FromBytes_eq_some : ∀ {bytes Q}, g2FromBytes bytes = some Q ↔ g2ToBytes Q = bytes
  /-- Hash a message under a domain separation tag (RFC 9380). -/
  hashToG1 : (msg dst : List UInt8) → G1
  sha256 : List UInt8 → List UInt8
  /-- The memory image of a target group element, which the digest is taken of. -/
  gtMemory : Gt → List UInt8
  eq_zero_of_digest : ∀ x, sha256 (gtMemory x) = sha256 (gtMemory 0) → x = 0

attribute [reducible, instance] Curve.addCommGroupG1 Curve.addCommGroupG2 Curve.addCommGroupGt
  Curve.moduleG1 Curve.moduleG2 Curve.moduleGt Curve.decidableEqG1 Curve.decidableEqG2
  Curve.decidableEqGt

variable [Curve]

/-- A point of the group of signatures. -/
abbrev G1Point := Curve.G1

/-- A point of the group of public keys. -/
abbrev G2Point := Curve.G2

/-- An element of the target group. -/
abbrev GtElement := Curve.Gt

/-- Hash a message to a point of the signature group. -/
abbrev hashToG1 (msg dst : List UInt8) : G1Point := Curve.hashToG1 msg dst

/-- The bytes of a Rust byte-string literal. -/
def byteLiteral (text : String) : List UInt8 := ByteString.utf8Bytes text

namespace G1Point

/-- The length of an encoded point. -/
def byteSize : ℕ := 48

def generator : G1Point := Curve.g1

def toBytes (P : G1Point) : List UInt8 := Curve.g1ToBytes P

def fromBytes (bytes : List UInt8) : Outcome MathError G1Point :=
  Outcome.okOr .invalidG1Point (Curve.g1FromBytes bytes)

/-- The encoding of a point of the first group is of fixed length. -/
@[simp] theorem length_toBytes (P : G1Point) : (toBytes P).length = byteSize :=
  Curve.length_g1ToBytes P

/-- A point of the first group is read back from its encoding. -/
@[simp] theorem fromBytes_toBytes (P : G1Point) : fromBytes (toBytes P) = .ok P := by
  rw [fromBytes, toBytes, Curve.g1FromBytes_eq_some.mpr rfl, Outcome.okOr_some]

/-- Different points are encoded differently. -/
theorem toBytes_injective : Function.Injective toBytes := by
  intro P Q h
  have hdecode := congrArg fromBytes h
  rw [fromBytes_toBytes, fromBytes_toBytes] at hdecode
  exact Except.ok.inj hdecode

/-- The bytes that decode to a point are its encoding and nothing else. -/
theorem fromBytes_eq_ok_iff {bytes : List UInt8} {P : G1Point} :
    fromBytes bytes = .ok P ↔ toBytes P = bytes := by
  rw [fromBytes, Outcome.okOr_eq_ok, Curve.g1FromBytes_eq_some]
  rfl

end G1Point

namespace G2Point

/-- The length of an encoded point. -/
def byteSize : ℕ := 96

def generator : G2Point := Curve.g2

def toBytes (Q : G2Point) : List UInt8 := Curve.g2ToBytes Q

def fromBytes (bytes : List UInt8) : Outcome MathError G2Point :=
  Outcome.okOr .invalidG2Point (Curve.g2FromBytes bytes)

/-- The encoding of a point of the second group is of fixed length. -/
@[simp] theorem length_toBytes (Q : G2Point) : (toBytes Q).length = byteSize :=
  Curve.length_g2ToBytes Q

/-- A point of the second group is read back from its encoding. -/
@[simp] theorem fromBytes_toBytes (Q : G2Point) : fromBytes (toBytes Q) = .ok Q := by
  rw [fromBytes, toBytes, Curve.g2FromBytes_eq_some.mpr rfl, Outcome.okOr_some]

/-- The bytes that decode to a point are its encoding and nothing else. -/
theorem fromBytes_eq_ok_iff {bytes : List UInt8} {Q : G2Point} :
    fromBytes bytes = .ok Q ↔ toBytes Q = bytes := by
  rw [fromBytes, Outcome.okOr_eq_ok, Curve.g2FromBytes_eq_some]
  rfl

end G2Point

end Sigimora
