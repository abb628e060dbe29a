import Sigimora.Crypto.Cipher
import Sigimora.Crypto.Pedersen

/-!
# Encrypted shares

A share on its way to its recipient, encrypted under a key that is derived from
an ephemeral key and the recipient's public key.
-/

namespace Sigimora

open Pedersen

variable [Curve] [Cipher]

/-- The random draws of one encryption: the ephemeral key and the nonce word. -/
structure ShareCoins where
  ephemeralSk : Scalar
  nonce : UInt64

/-- Index, value and blinding, one after the other. -/
def shareBytes (share : VssShare) : List UInt8 :=
  ByteString.littleEndian 2 share.index.toNat ++ share.value.toBytes ++ share.blinding.toBytes

/-- Encrypt a share for the recipient. -/
def encryptShare (share : VssShare) (recipientPk : G2Point) (coins : ShareCoins) : List UInt8 :=
  let ephemeralPk : G2Point := coins.ephemeralSk • G2Point.generator
  let shared := coins.ephemeralSk • recipientPk
  let key := Cipher.hkdf shared.toBytes (byteLiteral "sigimora-ecies")
  let nonce := ByteString.littleEndian 8 coins.nonce.toNat ++ List.replicate 4 0
  ephemeralPk.toBytes ++ nonce ++ Cipher.encrypt key nonce (shareBytes share)

end Sigimora
