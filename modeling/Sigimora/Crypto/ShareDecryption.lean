import Sigimora.Crypto.Error
import Sigimora.Crypto.ShareEncryption
import Sigimora.Library.Reader
import Sigimora.Math.ExponentCurve

/-!
# Decrypting shares

The recipient splits an encrypted share into the ephemeral key, the nonce and the
ciphertext, and the plaintext into index, value and blinding. The lengths that it
checks are those that the fields need.
-/

namespace Sigimora

open Pedersen Outcome

variable [Curve]

omit [Curve] in
/-- The share in a plaintext. -/
def parseShare (plaintext : List UInt8) : Outcome CryptoError VssShare := do
  if plaintext.length < 66 then Outcome.fail (.invalidParameter "invalid share")
  else
    let index ← Reader.readU16 plaintext 0
    let valueBytes ← Reader.slice plaintext 2 34
    let blindingBytes ← Reader.slice plaintext 34 66
    let value ← Outcome.mapErr (fun _ => .invalidParameter "invalid scalar")
      (Scalar.fromBytes valueBytes)
    let blinding ← Outcome.mapErr (fun _ => .invalidParameter "invalid blinding")
      (Scalar.fromBytes blindingBytes)
    return { index, value, blinding }

/-- Decrypt a share with the recipient's secret key. -/
def decryptShare [Cipher] (encrypted : List UInt8) (mySk : Scalar) :
    Outcome CryptoError VssShare := do
  if encrypted.length < 96 + 12 + 16 then
    Outcome.fail (.encryptionError "invalid ciphertext")
  else
    let epkBytes ← Reader.slice encrypted 0 96
    let ephemeralPk ← Outcome.mapErr (fun _ => .encryptionError "invalid ephemeral pk")
      (G2Point.fromBytes epkBytes)
    let nonce ← Reader.slice encrypted 96 108
    let ciphertext ← Reader.sliceFrom encrypted 108
    let shared := mySk • ephemeralPk
    let key := Cipher.hkdf shared.toBytes (byteLiteral "sigimora-ecies")
    let plaintext ← Outcome.okOr (.encryptionError "decryption failed")
      (Cipher.decrypt key nonce ciphertext)
    parseShare plaintext

/-! ## Decryption is total -/

omit [Curve] in
/-- No plaintext makes the parsing of a share panic. -/
theorem noPanic_parseShare (plaintext : List UInt8) : NoPanic (parseShare plaintext) := by
  unfold parseShare
  split
  · exact noPanic_fail _
  · next hlength =>
    simp only [noPanic_bind_iff, Reader.noPanic_readU16_iff, Reader.noPanic_slice_iff,
      noPanic_mapErr_iff, Scalar.noPanic_fromBytes, pure_eq_ok, noPanic_ok, implies_true,
      and_true]
    exact ⟨by omega, fun _ _ => ⟨by omega, fun _ _ => by omega⟩⟩

/-- No bytes make the decryption of a share panic. -/
theorem noPanic_decryptShare [Cipher] (encrypted : List UInt8) (mySk : Scalar) :
    NoPanic (decryptShare encrypted mySk) := by
  unfold decryptShare
  split
  · exact noPanic_fail _
  · next hlength =>
    have hdecode (bytes : List UInt8) : NoPanic (G2Point.fromBytes bytes) := noPanic_okOr _ _
    simp only [noPanic_bind_iff, Reader.noPanic_slice_iff, Reader.noPanic_sliceFrom_iff,
      noPanic_mapErr_iff, hdecode, noPanic_okOr, noPanic_parseShare, implies_true, and_true]
    exact ⟨by omega, fun _ _ => ⟨trivial, fun _ _ => ⟨by omega, fun _ _ => by omega⟩⟩⟩

/-! ## The round trip -/

omit [Curve] in
/-- A share is read back from its bytes. -/
theorem parseShare_shareBytes (share : VssShare) : parseShare (shareBytes share) = .ok share := by
  obtain ⟨index, value, blinding⟩ := share
  have hwidth : (ByteString.littleEndian 2 index.toNat).length = 2 :=
    ByteString.length_littleEndian _ _
  have hvalue : value.toBytes.length = 32 := Scalar.length_toBytes value
  have hblinding : blinding.toBytes.length = 32 := Scalar.length_toBytes blinding
  have hlength : ¬ (shareBytes ⟨index, value, blinding⟩).length < 66 := by
    simp only [shareBytes, List.length_append, hwidth, hvalue, hblinding]
    decide
  have hindex : (Reader.readU16 (shareBytes ⟨index, value, blinding⟩) 0 :
      Outcome CryptoError UInt16) = .ok index := by
    rw [shareBytes, List.append_assoc]
    exact Reader.readU16_append List.length_nil
  have hvalueBytes : (Reader.slice (shareBytes ⟨index, value, blinding⟩) 2 34 :
      Outcome CryptoError (List UInt8)) = .ok value.toBytes :=
    Reader.slice_append hwidth (by rw [hvalue])
  have hblindingBytes : (Reader.slice (shareBytes ⟨index, value, blinding⟩) 34 66 :
      Outcome CryptoError (List UInt8)) = .ok blinding.toBytes := by
    rw [shareBytes, ← List.append_nil (_ ++ blinding.toBytes)]
    exact Reader.slice_append (by rw [List.length_append, hwidth, hvalue]) (by rw [hblinding])
  rw [parseShare, if_neg hlength, hindex, ok_bind, hvalueBytes, ok_bind, hblindingBytes, ok_bind,
    Scalar.fromBytes_toBytes, mapErr_ok, ok_bind, Scalar.fromBytes_toBytes, mapErr_ok, ok_bind,
    pure_eq_ok]

/-- Both sides derive the key from the same point. -/
theorem decryptShare_encryptShare [Cipher]
    (hlength : ∀ key nonce ciphertext plaintext, Cipher.decrypt key nonce ciphertext =
      some plaintext → plaintext.length = ciphertext.length - 16)
    (share : VssShare) (sk : Scalar) (coins : ShareCoins) :
    decryptShare (encryptShare share (sk • G2Point.generator) coins) sk = .ok share := by
  let ephemeralPk : G2Point := coins.ephemeralSk • G2Point.generator
  let nonce := ByteString.littleEndian 8 coins.nonce.toNat ++ List.replicate 4 0
  let key := Cipher.hkdf (coins.ephemeralSk • sk • (G2Point.generator : G2Point)).toBytes
    (byteLiteral "sigimora-ecies")
  let ciphertext := Cipher.encrypt key nonce (shareBytes share)
  have hencrypted : encryptShare share (sk • G2Point.generator) coins =
      ephemeralPk.toBytes ++ nonce ++ ciphertext := rfl
  have hpk : ephemeralPk.toBytes.length = 96 := G2Point.length_toBytes ephemeralPk
  have hnonce : nonce.length = 12 := by
    simp only [nonce, List.length_append, ByteString.length_littleEndian, List.length_replicate]
  have hdecrypt : Cipher.decrypt key nonce ciphertext = some (shareBytes share) :=
    Cipher.decrypt_encrypt _ _ _
  have hplaintext : (shareBytes share).length = 66 := by
    simp only [shareBytes, List.length_append, ByteString.length_littleEndian,
      Scalar.length_toBytes, Scalar.byteSize]
  have hciphertext : ciphertext.length = 82 := by
    have hshorter := hlength _ _ _ _ hdecrypt
    omega
  have hlong : ¬ (ephemeralPk.toBytes ++ nonce ++ ciphertext).length < 96 + 12 + 16 := by
    simp only [List.length_append, hpk, hnonce, hciphertext]
    decide
  have hpkBytes : (Reader.slice (ephemeralPk.toBytes ++ nonce ++ ciphertext) 0 96 :
      Outcome CryptoError (List UInt8)) = .ok ephemeralPk.toBytes := by
    rw [List.append_assoc]
    exact Reader.slice_append List.length_nil ((Nat.zero_add _).trans hpk)
  have hnonceBytes : (Reader.slice (ephemeralPk.toBytes ++ nonce ++ ciphertext) 96 108 :
      Outcome CryptoError (List UInt8)) = .ok nonce :=
    Reader.slice_append hpk (by rw [hnonce])
  have hrest : (Reader.sliceFrom (ephemeralPk.toBytes ++ nonce ++ ciphertext) 108 :
      Outcome CryptoError (List UInt8)) = .ok ciphertext :=
    Reader.sliceFrom_append (by rw [List.length_append, hpk, hnonce])
  -- Diffie-Hellman: the order of the two secrets does not matter
  have hshared : sk • ephemeralPk = coins.ephemeralSk • sk • G2Point.generator := smul_comm _ _ _
  rw [hencrypted, decryptShare, if_neg hlong, hpkBytes, ok_bind, G2Point.fromBytes_toBytes,
    mapErr_ok, ok_bind, hnonceBytes, ok_bind, hrest, ok_bind]
  simp only [hshared]
  rw [hdecrypt, okOr_some, ok_bind, parseShare_shareBytes]

/-- **Share encryption.** The recipient reads the share that was encrypted for it, and no byte
string makes it panic. -/
theorem shareEncryption_roundTrip_and_total [Cipher]
    (hlength : ∀ key nonce ciphertext plaintext, Cipher.decrypt key nonce ciphertext =
      some plaintext → plaintext.length = ciphertext.length - 16) :
    (∀ (share : VssShare) (sk : Scalar) (coins : ShareCoins),
      decryptShare (encryptShare share (sk • G2Point.generator) coins) sk = .ok share) ∧
    ∀ (encrypted : List UInt8) (sk : Scalar), NoPanic (decryptShare encrypted sk) :=
  ⟨decryptShare_encryptShare hlength, noPanic_decryptShare⟩

omit [Curve] in
/-- The plain cipher keeps to the lengths. -/
theorem shareEncryption_plain :
    letI := exponentCurve
    letI := plainCipher
    decryptShare (encryptShare ⟨3, 5, 7⟩ ((11 : Scalar) • G2Point.generator) ⟨13, 17⟩) 11 =
      .ok ⟨3, 5, 7⟩ := by
  let := exponentCurve
  let := plainCipher
  refine (shareEncryption_roundTrip_and_total ?_).1 _ _ _
  intro key nonce ciphertext plaintext h
  change (if ciphertext.length < 16 then none else some _) = some plaintext at h
  split at h
  · cases h
  · rw [← Option.some.inj h, List.length_take, min_eq_left (Nat.sub_le _ _)]

end Sigimora
