import Sigimora.Library.ByteString
import Sigimora.Library.Outcome
import Sigimora.Math.Order

/-!
# Scalars

The scalar field of the curve, with the operations of the `Scalar` wrapper that
are not plain field arithmetic: the embedding of machine integers, inversion,
and the canonical big-endian encoding in 32 bytes.
-/

namespace Sigimora

/-- Errors of the math layer. -/
inductive MathError
  | invalidScalar
  | invalidG1Point
  | invalidG2Point
  | notInvertible
  | deserialization (message : String)
  deriving DecidableEq, Repr

instance : ToString MathError where
  toString
    | .invalidScalar => "invalid scalar encoding"
    | .invalidG1Point => "invalid G1 point encoding"
    | .invalidG2Point => "invalid G2 point encoding"
    | .notInvertible => "scalar is not invertible (zero)"
    | .deserialization message => s!"deserialization error: {message}"

/-- Participants are numbered by a `u16`. -/
abbrev ParticipantId := UInt16

/-- An element of the scalar field. -/
abbrev Scalar := ZMod curveOrder

namespace Scalar

/-- The length of an encoded scalar. -/
def byteSize : ℕ := 32

/-- The scalar with the value of a machine integer. -/
def fromU64 (val : UInt64) : Scalar := (val.toNat : ℕ)

/-- The inverse of a nonzero scalar; zero has none. -/
def invert (s : Scalar) : Option Scalar := if s = 0 then none else some s⁻¹

/-- The canonical big-endian encoding. -/
def toBytes (s : Scalar) : List UInt8 := ByteString.bigEndian byteSize s.val

/-- Decode a canonical encoding; a value of at least the order is rejected. -/
def fromBytes (bytes : List UInt8) : Outcome MathError Scalar :=
  if ByteString.ofBigEndian bytes < curveOrder then
    .ok (ByteString.ofBigEndian bytes : ℕ)
  else Outcome.fail .invalidScalar

/-- The node of a participant: `Scalar::from_u64(id as u64)`. -/
def ofId (id : ParticipantId) : Scalar := fromU64 id.toUInt64

/-- The scalar of a participant is the number of its id. -/
theorem ofId_eq_natCast (id : ParticipantId) : ofId id = ((id.toNat : ℕ) : Scalar) := by
  simp [ofId, fromU64]

/-- The order of the curve is above every 64-bit number. -/
theorem curveOrder_gt_u64 : 2 ^ 64 < curveOrder := by
  norm_num [curveOrder]

/-- A scalar fits into its encoding. -/
theorem order_lt_encoding : curveOrder < 256 ^ byteSize := by
  norm_num [curveOrder, byteSize]

/-- The number of an id survives the cast to a scalar. -/
theorem val_ofId (id : ParticipantId) : (ofId id).val = id.toNat := by
  have hid : id.toNat < 2 ^ 16 := id.toNat_lt
  have horder := curveOrder_gt_u64
  rw [ofId_eq_natCast, ZMod.val_natCast, Nat.mod_eq_of_lt (by omega)]

/-- Distinct participants have distinct nodes. -/
theorem ofId_injective : Function.Injective ofId := by
  intro a b h
  have hval := congrArg ZMod.val h
  rw [val_ofId, val_ofId] at hval
  exact UInt16.toNat_inj.mp hval

/-- Different ids are different scalars. -/
@[simp] theorem ofId_inj {a b : ParticipantId} : ofId a = ofId b ↔ a = b :=
  ofId_injective.eq_iff

/-- The id zero is the scalar zero. -/
theorem ofId_zero : ofId 0 = 0 := by
  simp [ofId_eq_natCast]

/-- An id other than zero is a scalar other than zero. -/
theorem ofId_ne_zero {id : ParticipantId} (h : id ≠ 0) : ofId id ≠ 0 := by
  rw [← ofId_zero]
  exact fun heq => h (ofId_injective heq)

/-- The encoding of a scalar is of fixed length. -/
@[simp] theorem length_toBytes (s : Scalar) : s.toBytes.length = byteSize :=
  ByteString.length_bigEndian _ _

/-- Decoding an encoding gives the scalar back. -/
@[simp] theorem fromBytes_toBytes (s : Scalar) : fromBytes s.toBytes = .ok s := by
  have hval : ByteString.ofBigEndian s.toBytes = s.val :=
    ByteString.ofBigEndian_bigEndian_of_lt ((ZMod.val_lt s).trans order_lt_encoding)
  simp only [fromBytes, hval, if_pos (ZMod.val_lt s), ZMod.natCast_val, ZMod.cast_id', id_eq]

/-- No bytes make the decoding of a scalar panic. -/
theorem noPanic_fromBytes (bytes : List UInt8) : Outcome.NoPanic (fromBytes bytes) := by
  unfold fromBytes
  split
  · exact Outcome.noPanic_ok _
  · exact Outcome.noPanic_fail _

/-- Among the byte strings of its length a scalar is decoded from its encoding only. -/
theorem fromBytes_eq_ok_iff {bytes : List UInt8} {s : Scalar} (hlength : bytes.length = byteSize) :
    fromBytes bytes = .ok s ↔ s.toBytes = bytes := by
  constructor
  · intro h
    unfold fromBytes at h
    split at h
    · next hlt =>
      cases h
      rw [toBytes, ZMod.val_natCast, Nat.mod_eq_of_lt hlt, ← hlength,
        ByteString.bigEndian_ofBigEndian]
    · cases h
  · rintro rfl
    exact fromBytes_toBytes s

/-- A scalar other than zero has an inverse. -/
theorem invert_of_ne_zero {s : Scalar} (h : s ≠ 0) : s.invert = some s⁻¹ := if_neg h

/-- Zero has none. -/
theorem invert_zero : invert 0 = none := if_pos rfl

end Scalar

end Sigimora
