import Sigimora.Math.Curve

/-!
# Pairing checks

The product checks behind signature verification. The constant-time checks
compare SHA-256 digests of target group elements; under the laws of `Curve`
they decide the pairing equation, and against the generator of the key group
that equation determines the signature.
-/

namespace Sigimora

variable [Curve]

/-- The pairing of two points. -/
def pairing (P : G1Point) (Q : G2Point) : GtElement := Curve.e P Q

/-- The product of pairings; the target group is written additively. -/
def multiPairing (pairs : List (G1Point × G2Point)) : GtElement :=
  (pairs.map fun pair => pairing pair.1 pair.2).sum

/-- Constant-time equality: the SHA-256 digests of the two elements agree. -/
def GtElement.ctEq (x y : GtElement) : Bool :=
  Curve.sha256 (Curve.gtMemory x) == Curve.sha256 (Curve.gtMemory y)

def GtElement.ctIsIdentity (x : GtElement) : Bool := GtElement.ctEq x 0

/-- Whether `e(a1, b1) · e(a2, b2)` is the identity. -/
def ctPairingCheck (a1 : G1Point) (b1 : G2Point) (a2 : G1Point) (b2 : G2Point) : Bool :=
  GtElement.ctIsIdentity (multiPairing [(a1, b1), (a2, b2)])

/-- The signature equation `e(sig, g₂) = e(hash, pk)`. -/
def ctVerifyBlsSignature (sig hash : G1Point) (pk : G2Point) : Bool :=
  ctPairingCheck sig G2Point.generator (-hash) pk

/-- The check for the identity finds the identity. -/
theorem GtElement.ctIsIdentity_iff {x : GtElement} : GtElement.ctIsIdentity x = true ↔ x = 0 := by
  rw [GtElement.ctIsIdentity, GtElement.ctEq, beq_iff_eq]
  constructor
  · exact Curve.eq_zero_of_digest x
  · rintro rfl
    rfl

/-- The check of two pairings compares them. -/
theorem ctPairingCheck_iff {a1 a2 : G1Point} {b1 b2 : G2Point} :
    ctPairingCheck a1 b1 (-a2) b2 = true ↔ pairing a1 b1 = pairing a2 b2 := by
  rw [ctPairingCheck, GtElement.ctIsIdentity_iff]
  simp only [multiPairing, pairing, List.map_cons, List.map_nil, List.sum_cons, List.sum_nil,
    map_neg, LinearMap.neg_apply, add_zero]
  exact add_neg_eq_zero

/-- The constant-time check decides the signature equation. -/
theorem ctVerifyBlsSignature_iff {sig hash : G1Point} {pk : G2Point} :
    ctVerifyBlsSignature sig hash pk = true ↔
      pairing sig G2Point.generator = pairing hash pk :=
  ctPairingCheck_iff

/-- The pairing is linear in its first argument. -/
theorem pairing_smul_left (a : Scalar) (P : G1Point) (Q : G2Point) :
    pairing (a • P) Q = a • pairing P Q := by
  simp only [pairing, map_smul, LinearMap.smul_apply]

/-- The pairing is linear in its second argument. -/
theorem pairing_smul_right (a : Scalar) (P : G1Point) (Q : G2Point) :
    pairing P (a • Q) = a • pairing P Q := by
  simp only [pairing, map_smul]

/-- The generator of the first group is not the identity. -/
theorem G1Point.generator_ne_zero : (G1Point.generator : G1Point) ≠ 0 := by
  intro hzero
  apply Curve.e_generators_ne_zero
  change Curve.e G1Point.generator Curve.g2 = 0
  rw [hzero, map_zero, LinearMap.zero_apply]

/-- Nor is that of the second group. -/
theorem G2Point.generator_ne_zero : (G2Point.generator : G2Point) ≠ 0 := by
  intro hzero
  apply Curve.e_generators_ne_zero
  change Curve.e Curve.g1 G2Point.generator = 0
  rw [hzero, map_zero]

/-- Pairing with the generator of the key group is injective. -/
theorem pairing_generator_inj {P P' : G1Point} :
    pairing P G2Point.generator = pairing P' G2Point.generator ↔ P = P' := by
  constructor
  · intro h
    obtain ⟨a, rfl⟩ := Curve.exists_smul_g1 P
    obtain ⟨b, rfl⟩ := Curve.exists_smul_g1 P'
    rw [pairing_smul_left, pairing_smul_left] at h
    rw [smul_left_injective Scalar Curve.e_generators_ne_zero h]
  · rintro rfl
    rfl

/-- Under the key `sk • g₂` exactly the point `sk • hash` verifies. -/
theorem ctVerifyBlsSignature_smul_iff {sig hash : G1Point} {sk : Scalar} :
    ctVerifyBlsSignature sig hash (sk • G2Point.generator) = true ↔ sig = sk • hash := by
  rw [ctVerifyBlsSignature_iff, pairing_smul_right, ← pairing_smul_left, pairing_generator_inj]

/-- The signature equation holds exactly for the points that the secret of the key makes. -/
theorem pairing_generator_eq_iff {sig hash : G1Point} {pk : G2Point} :
    pairing sig G2Point.generator = pairing hash pk ↔
      ∃ sk : Scalar, pk = sk • G2Point.generator ∧ sig = sk • hash := by
  obtain ⟨sk, hpk⟩ := Curve.exists_smul_g2 pk
  constructor
  · intro h
    refine ⟨sk, hpk, ?_⟩
    rw [← ctVerifyBlsSignature_iff, hpk] at h
    exact ctVerifyBlsSignature_smul_iff.mp h
  · rintro ⟨sk, rfl, rfl⟩
    rw [pairing_smul_left, pairing_smul_right]

/-- Every point is a multiple of any point but the identity. -/
theorem G1Point.exists_smul_of_ne_zero {P : G1Point} (hP : P ≠ 0) (Q : G1Point) :
    ∃ a : Scalar, Q = a • P := by
  obtain ⟨b, rfl⟩ := Curve.exists_smul_g1 P
  obtain ⟨c, rfl⟩ := Curve.exists_smul_g1 Q
  have hb : b ≠ 0 := by
    rintro rfl
    exact hP (zero_smul _ _)
  refine ⟨c / b, ?_⟩
  rw [smul_smul, div_mul_cancel₀ c hb]

end Sigimora
