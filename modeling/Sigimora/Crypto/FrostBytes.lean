import Sigimora.Crypto.Frost
import Sigimora.Library.Reader

/-!
# The byte form of a FROST signature

The writer puts the epoch and the transcript between the point and the signers.
The reader looks for the signers right behind the point, and fills in the other
two fields itself.
-/

namespace Sigimora.Frost.FrostSignature

open Outcome Reader

variable [Curve]

/-- The bytes of a signature; the two lengths are cut down to one byte each. -/
def toBytes (sig : FrostSignature) : List UInt8 :=
  sig.sigma.toBytes ++ ByteString.littleEndian 8 sig.epoch.toNat ++
    [UInt8.ofNat sig.transcript.length] ++ sig.transcript ++
    [UInt8.ofNat sig.signers.length] ++
    sig.signers.flatMap fun id => ByteString.littleEndian 2 id.toNat

/-- Read a signature from bytes. -/
def fromBytes (data : List UInt8) : Outcome CryptoError FrostSignature :=
  if data.length < 49 then fail .invalidSignature
  else do
    let sigBytes ← slice data 0 48
    let sigma ← mapErr (fun _ => .invalidSignature) (G1Point.fromBytes sigBytes)
    let count ← index data 48
    let numSigners := count.toNat
    if data.length < 49 + numSigners * 2 then fail .invalidSignature
    else do
      let signers ← (List.range numSigners).mapM fun i => do
        let start := 49 + i * 2
        readU16 data start
      return { sigma, signers, epoch := 1, transcript := [] }

/-- Whatever is read is a signature of the first epoch without a transcript. -/
theorem fromBytes_records {data : List UInt8} {sig : FrostSignature}
    (h : fromBytes data = .ok sig) : sig.epoch = 1 ∧ sig.transcript = [] := by
  unfold fromBytes at h
  split_ifs at h
  · cases h
  · obtain ⟨_, _, h⟩ := bind_eq_ok.mp h
    obtain ⟨_, _, h⟩ := bind_eq_ok.mp h
    obtain ⟨_, _, h⟩ := bind_eq_ok.mp h
    simp only at h
    split_ifs at h
    · cases h
    · obtain ⟨_, _, h⟩ := bind_eq_ok.mp h
      cases h
      exact ⟨rfl, rfl⟩

/-- The low byte of the first epoch is read as the number of signers, and the next two bytes of
the epoch as the signer. -/
theorem fromBytes_toBytes_of_first_epoch {sig : FrostSignature} (hepoch : sig.epoch = 1) :
    fromBytes sig.toBytes = .ok { sig with signers := [0], transcript := [] } := by
  obtain ⟨rest, hbytes⟩ : ∃ rest, sig.toBytes =
      sig.sigma.toBytes ++ 1 :: (ByteString.littleEndian 2 (0 : UInt16).toNat ++ rest) := by
    refine ⟨[0, 0, 0, 0, 0] ++ ([UInt8.ofNat sig.transcript.length] ++ (sig.transcript ++
      ([UInt8.ofNat sig.signers.length] ++
        sig.signers.flatMap fun id => ByteString.littleEndian 2 id.toNat))), ?_⟩
    have hfirst : ByteString.littleEndian 8 (1 : UInt64).toNat = [1, 0, 0, 0, 0, 0, 0, 0] := rfl
    have hzero : ByteString.littleEndian 2 (0 : UInt16).toNat = [0, 0] := rfl
    rw [toBytes, hepoch, hfirst, hzero]
    simp only [List.append_assoc, List.cons_append, List.nil_append]
  have hsigma : sig.sigma.toBytes.length = 48 := G1Point.length_toBytes _
  have hlength : 51 ≤ sig.toBytes.length := by
    rw [hbytes, List.length_append, List.length_cons, List.length_append,
      ByteString.length_littleEndian, hsigma]
    omega
  have hslice : (slice sig.toBytes 0 48 : Outcome CryptoError _) = .ok sig.sigma.toBytes := by
    rw [hbytes]
    change slice ([] ++ sig.sigma.toBytes ++ _) 0 48 = _
    exact slice_append rfl (by rw [hsigma])
  have hcount : (index sig.toBytes 48 : Outcome CryptoError _) = .ok 1 := by
    rw [hbytes]
    exact index_append hsigma
  have hsigner : (readU16 sig.toBytes 49 : Outcome CryptoError _) = .ok 0 := by
    rw [hbytes, List.append_cons, ← List.append_assoc]
    exact readU16_append (by rw [List.length_append, hsigma, List.length_singleton])
  rw [fromBytes, if_neg (by omega), hslice, ok_bind, G1Point.fromBytes_toBytes, mapErr_ok, ok_bind,
    hcount, ok_bind]
  have henough : ¬ sig.toBytes.length < 49 + 1 * 2 := by omega
  simp only [UInt8.toNat_one, if_neg henough, List.range_one, List.mapM_cons, List.mapM_nil,
    zero_mul, add_zero, hsigner, ok_bind, pure_eq_ok, hepoch]

/-- **Reading back.** A signature is read back as it was exactly in the first epoch, without a
transcript, and if its only signer is the one with the id zero. -/
theorem fromBytes_toBytes_iff (sig : FrostSignature) :
    fromBytes sig.toBytes = .ok sig ↔
      sig.epoch = 1 ∧ sig.transcript = [] ∧ sig.signers = [0] := by
  constructor
  · intro h
    obtain ⟨hepoch, htranscript⟩ := fromBytes_records h
    rw [fromBytes_toBytes_of_first_epoch hepoch, Except.ok.injEq] at h
    exact ⟨hepoch, htranscript, (congrArg signers h).symm⟩
  · rintro ⟨hepoch, htranscript, hsigners⟩
    rw [fromBytes_toBytes_of_first_epoch hepoch, ← htranscript, ← hsigners]

omit [Curve] in
/-- A signature by the first participant is read back as one by the participant zero. -/
theorem signer_lost_in_bytes :
    letI := exponentCurve
    fromBytes (toBytes ⟨G1Point.generator, [1], 1, []⟩) ≠
      .ok ⟨G1Point.generator, [1], 1, []⟩ := by
  let := exponentCurve
  rw [fromBytes_toBytes_of_first_epoch rfl]
  intro h
  exact absurd (congrArg signers (Except.ok.inj h)) (by decide)

end Sigimora.Frost.FrostSignature
