import Mathlib.Data.List.Defs

/-!
# Symmetric encryption

Key derivation and authenticated encryption come from the `hkdf` and `aes-gcm`
crates. The development takes them as the class `Cipher`; the only law it
relies on is that decryption inverts encryption.
-/

namespace Sigimora

/-- HKDF-SHA-256 without salt and AES-256-GCM without associated data. -/
class Cipher where
  /-- Extract from the input keying material and expand to 32 bytes. -/
  hkdf : (ikm info : List UInt8) → List UInt8
  /-- The ciphertext with its tag. -/
  encrypt : (key nonce plaintext : List UInt8) → List UInt8
  /-- The plaintext of an authentic ciphertext. -/
  decrypt : (key nonce ciphertext : List UInt8) → Option (List UInt8)
  decrypt_encrypt : ∀ key nonce plaintext,
    decrypt key nonce (encrypt key nonce plaintext) = some plaintext

/-- The cipher whose ciphertext is the plaintext behind a tag of sixteen zero bytes. -/
@[reducible] def plainCipher : Cipher where
  hkdf ikm _ := ikm.take 32
  encrypt _ _ plaintext := plaintext ++ List.replicate 16 0
  decrypt _ _ ciphertext :=
    if ciphertext.length < 16 then none else some (ciphertext.take (ciphertext.length - 16))
  decrypt_encrypt key nonce plaintext := by
    simp

end Sigimora
