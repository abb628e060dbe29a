import Sigimora.Crypto.Bls
import Sigimora.Library.Json
import Sigimora.Math.ExponentCurve
import Sigimora.Mcp.Error
import Sigimora.Mcp.Zkp

/-!
# Identities on file

A node keeps its identity in a JSON file. The file holds the secret key and what is
derived from it, and loading decodes every field for itself: the number of the node is
cut down to 16 bits, the decoded bytes are copied into arrays without a look at their
number, and the public key and the address are taken over as they stand.
-/

namespace Sigimora.Mcp

open Outcome

/-- The name of a node. -/
@[ext] structure NodeAddress where
  bytes : List UInt8
  length_bytes : bytes.length = 20

namespace NodeAddress

/-- The first bytes of the digest of the public key. -/
def fromPublicKey [Curve] [Sha3] (publicKey : Bls.PublicKey) : NodeAddress where
  bytes := (Sha3.sha3 publicKey.toBytes).take 20
  length_bytes := by
    rw [List.length_take, Sha3.length_sha3]
    rfl

def toHex (address : NodeAddress) : String := ByteString.hexEncode address.bytes

end NodeAddress

structure NodeSecretKey where
  secret : Scalar

def NodeSecretKey.publicKey [Curve] (key : NodeSecretKey) : Bls.PublicKey :=
  ⟨key.secret • G2Point.generator⟩

structure NodeIdentity [Curve] where
  nodeId : ParticipantId
  secretKey : NodeSecretKey
  publicKey : Bls.PublicKey
  address : NodeAddress
  companyName : Option String
  createdAt : UInt64

/-- The parser of `serde_json`; an error has a text. -/
class JsonText where
  fromStr : String → Except String Json

/-- A result of a library, with its error described. -/
def describing {δ α : Type} (describe : δ → String) : Except δ α → Outcome McpError α
  | .ok a => .ok a
  | .error e => fail (.serializationError (describe e))

/-- Copy into an array of that size. -/
def copyFromSlice (size : ℕ) (source : List UInt8) :
    Outcome McpError {copied : List UInt8 // copied.length = size} :=
  if h : source.length = size then .ok ⟨source, h⟩
  else panic (s!"source slice length ({source.length}) does not match destination slice " ++
    s!"length ({size})")

/-- A field of hexadecimal digits, copied into an array of that size. -/
def hexField (json : Json) (key failure : String) (size : ℕ) :
    Outcome McpError {copied : List UInt8 // copied.length = size} := do
  let text ← okOr (.serializationError s!"missing {key}") (json.get key).asStr
  let bytes ← describing (fun e : ByteString.FromHexError => s!"{failure}: {e}")
    (ByteString.hexDecode text)
  copyFromSlice size bytes

namespace NodeIdentity

variable [Curve]

/-- An identity whose secret key was drawn, made at a time in seconds. -/
def new [Sha3] (nodeId : ParticipantId) (secret : Scalar) (companyName : Option String)
    (now : UInt64) : NodeIdentity :=
  let secretKey : NodeSecretKey := ⟨secret⟩
  let publicKey := secretKey.publicKey
  let address := NodeAddress.fromPublicKey publicKey
  { nodeId, secretKey, publicKey, address, companyName, createdAt := now }

/-- Load an identity from what reading its file gave. -/
def loadFromFile [JsonText] (file : Except String String) : Outcome McpError NodeIdentity := do
  let data ← describing (fun e => s!"read identity: {e}") file
  let json ← describing (fun e => s!"parse identity: {e}") (JsonText.fromStr data)
  let nodeId ← okOr (.serializationError "missing node_id") (json.get "node_id").asU64
  let skArr ← hexField json "secret_key" "hex decode secret" 32
  let secretScalar ← mapErr (fun _ => .serializationError "invalid secret key")
    (Scalar.fromBytes skArr.val)
  let pkArr ← hexField json "public_key" "hex decode" 96
  let point ← mapErr (fun _ => .serializationError "invalid public key")
    (G2Point.fromBytes pkArr.val)
  let addrArr ← hexField json "address" "hex decode" 20
  return {
    nodeId := nodeId.toUInt16
    secretKey := ⟨secretScalar⟩
    publicKey := ⟨point⟩
    address := ⟨addrArr.val, addrArr.property⟩
    companyName := (json.get "company_name").asStr
    createdAt := (json.get "created_at").asU64.getD 0 }

/-- The value that is written to the file. -/
def toJson (identity : NodeIdentity) : Json :=
  .object [
    ("node_id", .number (.posInt identity.nodeId.toUInt64)),
    ("secret_key", .string (ByteString.hexEncode identity.secretKey.secret.toBytes)),
    ("public_key", .string (ByteString.hexEncode identity.publicKey.toBytes)),
    ("address", .string identity.address.toHex),
    ("company_name", identity.companyName.elim .null .string),
    ("created_at", .number (.posInt identity.createdAt))]

end NodeIdentity

/-! ## Fields -/

/-- The bytes that a field holds as hexadecimal digits. -/
def HexField (json : Json) (key : String) (bytes : List UInt8) : Prop :=
  ∃ text, (json.get key).asStr = some text ∧ ByteString.hexDecode text = .ok bytes

variable {json : Json} {key failure : String} {size : ℕ}

/-- Describing the errors does not change a success. -/
theorem describing_eq_ok_iff {δ α : Type} {describe : δ → String} {result : Except δ α} {a : α} :
    describing describe result = .ok a ↔ result = .ok a := by
  cases result with
  | ok b => rw [describing, Except.ok.injEq, Except.ok.injEq]
  | error e => exact iff_of_false nofun nofun

/-- Describing the errors does not panic. -/
theorem noPanic_describing {δ α : Type} (describe : δ → String) (result : Except δ α) :
    NoPanic (describing describe result) := by
  cases result with
  | ok a => exact noPanic_ok a
  | error e => exact noPanic_fail _

/-- Bytes are copied as they are. -/
theorem copyFromSlice_eq_ok_iff {source : List UInt8}
    {copied : {copied : List UInt8 // copied.length = size}} :
    copyFromSlice size source = .ok copied ↔ source = copied.val := by
  unfold copyFromSlice
  by_cases h : source.length = size
  · rw [dif_pos h, Except.ok.injEq, Subtype.ext_iff]
  · rw [dif_neg h]
    refine iff_of_false nofun ?_
    rintro rfl
    exact h copied.property

/-- Copying panics exactly if the lengths differ. -/
theorem noPanic_copyFromSlice_iff {source : List UInt8} :
    NoPanic (copyFromSlice size source) ↔ source.length = size := by
  unfold copyFromSlice
  split
  · next h => exact iff_of_true (noPanic_ok _) h
  · next h => exact iff_of_false (not_noPanic_panic _) h

/-- A field is read just if it has hexadecimal digits for as many bytes. -/
theorem hexField_eq_ok_iff {copied : {copied : List UInt8 // copied.length = size}} :
    hexField json key failure size = .ok copied ↔ HexField json key copied.val := by
  simp only [hexField, bind_eq_ok, okOr_eq_ok, describing_eq_ok_iff, copyFromSlice_eq_ok_iff,
    HexField]
  constructor
  · rintro ⟨text, htext, bytes, hbytes, rfl⟩
    exact ⟨text, htext, hbytes⟩
  · rintro ⟨text, htext, hbytes⟩
    exact ⟨text, htext, _, hbytes, rfl⟩

/-- Reading a field panics exactly if it has digits for another number of bytes. -/
theorem noPanic_hexField_iff : NoPanic (hexField json key failure size) ↔
    ∀ bytes, HexField json key bytes → bytes.length = size := by
  simp only [hexField, noPanic_bind_iff, noPanic_okOr, noPanic_describing, okOr_eq_ok,
    describing_eq_ok_iff, noPanic_copyFromSlice_iff, true_and, HexField]
  constructor
  · rintro h bytes ⟨text, htext, hbytes⟩
    exact h text htext bytes hbytes
  · intro h text htext bytes hbytes
    exact h bytes ⟨text, htext, hbytes⟩

/-! ## Loading -/

section Loading

variable [Curve] {content : String} {identity : NodeIdentity}

/-- The identity has the values of the fields, with its number cut down. -/
structure Describes (json : Json) (identity : NodeIdentity) : Prop where
  nodeId : ∃ n, (json.get "node_id").asU64 = some n ∧ n.toUInt16 = identity.nodeId
  secretKey : HexField json "secret_key" identity.secretKey.secret.toBytes
  publicKey : HexField json "public_key" identity.publicKey.toBytes
  address : HexField json "address" identity.address.bytes
  companyName : (json.get "company_name").asStr = identity.companyName
  createdAt : (json.get "created_at").asU64.getD 0 = identity.createdAt

/-- A file is loaded just if it describes the identity. -/
theorem loadFromFile_eq_ok_iff [JsonText] (hparse : JsonText.fromStr content = .ok json) :
    NodeIdentity.loadFromFile (.ok content) = .ok identity ↔ Describes json identity := by
  simp only [NodeIdentity.loadFromFile, hparse, describing, ok_bind, bind_eq_ok, okOr_eq_ok,
    hexField_eq_ok_iff, mapErr_eq_ok_iff, G2Point.fromBytes_eq_ok_iff, pure_eq_ok, Except.ok.injEq]
  constructor
  · rintro ⟨n, hn, skArr, hsk, s, hs, pkArr, hpk, point, hpoint, addrArr, haddr, rfl⟩
    rw [Scalar.fromBytes_eq_ok_iff skArr.property] at hs
    rw [← hs] at hsk
    rw [← hpoint] at hpk
    exact ⟨⟨n, hn, rfl⟩, hsk, hpk, haddr, rfl, rfl⟩
  · rintro ⟨⟨n, hn, hnodeId⟩, hsk, hpk, haddr, hcompany, hcreated⟩
    obtain ⟨nodeId, secretKey, publicKey, address, companyName, createdAt⟩ := identity
    refine ⟨n, hn, ⟨_, Scalar.length_toBytes secretKey.secret⟩, hsk, secretKey.secret,
      Scalar.fromBytes_toBytes _, ⟨_, G2Point.length_toBytes publicKey.point⟩, hpk,
      publicKey.point, rfl, ⟨_, address.length_bytes⟩, haddr, ?_⟩
    cases hnodeId
    cases hcompany
    cases hcreated
    rfl

/-- Each of the three fields has its number of bytes, if the fields before it can be read. -/
structure FieldsFit (json : Json) : Prop where
  secretKey : ∀ n bytes, (json.get "node_id").asU64 = some n →
    HexField json "secret_key" bytes → bytes.length = 32
  publicKey : ∀ n (s : Scalar) bytes, (json.get "node_id").asU64 = some n →
    HexField json "secret_key" s.toBytes → HexField json "public_key" bytes → bytes.length = 96
  address : ∀ n (s : Scalar) (Q : G2Point) bytes, (json.get "node_id").asU64 = some n →
    HexField json "secret_key" s.toBytes → HexField json "public_key" Q.toBytes →
      HexField json "address" bytes → bytes.length = 20

/-- Loading a file panics exactly if one of its fields does not fit. -/
theorem noPanic_loadFromFile_iff [JsonText] (hparse : JsonText.fromStr content = .ok json) :
    NoPanic (NodeIdentity.loadFromFile (.ok content)) ↔ FieldsFit json := by
  have hpoint (bytes : List UInt8) : NoPanic (G2Point.fromBytes bytes) := noPanic_okOr _ _
  simp only [NodeIdentity.loadFromFile, hparse, describing, ok_bind, noPanic_bind_iff, noPanic_okOr,
    noPanic_hexField_iff, noPanic_mapErr_iff, Scalar.noPanic_fromBytes, hpoint, okOr_eq_ok,
    hexField_eq_ok_iff, mapErr_eq_ok_iff, G2Point.fromBytes_eq_ok_iff, pure_eq_ok, noPanic_ok,
    true_and, implies_true, and_true]
  constructor
  · intro h
    refine ⟨fun n bytes hn => (h n hn).1 bytes, ?_, ?_⟩
    · intro n s bytes hn hsk
      exact ((h n hn).2 ⟨_, Scalar.length_toBytes s⟩ hsk s (Scalar.fromBytes_toBytes s)).1 bytes
    · intro n s Q bytes hn hsk hpk
      exact ((h n hn).2 ⟨_, Scalar.length_toBytes s⟩ hsk s (Scalar.fromBytes_toBytes s)).2
        ⟨_, G2Point.length_toBytes Q⟩ hpk Q rfl bytes
  · rintro ⟨hsecret, hpublic, haddress⟩ n hn
    refine ⟨fun bytes => hsecret n bytes hn, fun skArr hsk s hs => ?_⟩
    rw [Scalar.fromBytes_eq_ok_iff skArr.property] at hs
    rw [← hs] at hsk
    refine ⟨fun bytes => hpublic n s bytes hn hsk, fun pkArr hpk Q hQ bytes => ?_⟩
    rw [← hQ] at hpk
    exact haddress n s Q bytes hn hsk hpk

/-- What is saved is loaded again. -/
theorem loadFromFile_toJson [JsonText]
    (hparse : JsonText.fromStr content = .ok identity.toJson) :
    NodeIdentity.loadFromFile (.ok content) = .ok identity := by
  rw [loadFromFile_eq_ok_iff hparse]
  have hhex (bytes : List UInt8) := ByteString.hexDecode_hexEncode bytes
  have hcut : identity.nodeId.toUInt64.toUInt16 = identity.nodeId := UInt16.toUInt16_toUInt64 _
  refine ⟨⟨_, ?_, hcut⟩, ⟨_, ?_, hhex _⟩, ⟨_, ?_, hhex _⟩, ⟨_, ?_, hhex _⟩, ?_, ?_⟩
  · simp [NodeIdentity.toJson]
  · simp [NodeIdentity.toJson]
  · simp [NodeIdentity.toJson]
  · simp [NodeIdentity.toJson, NodeAddress.toHex]
  · cases h : identity.companyName <;> simp [NodeIdentity.toJson, h, Json.asStr]
  · simp [NodeIdentity.toJson]

/-! ## Consistent identities -/

/-- The public key and the address are those of the secret key. -/
structure NodeIdentity.Consistent [Sha3] (identity : NodeIdentity) : Prop where
  publicKey : identity.publicKey = identity.secretKey.publicKey
  address : identity.address = NodeAddress.fromPublicKey identity.publicKey

/-- A new identity is consistent. -/
theorem NodeIdentity.consistent_new [Sha3] (nodeId : ParticipantId) (secret : Scalar)
    (companyName : Option String) (now : UInt64) :
    (NodeIdentity.new nodeId secret companyName now).Consistent :=
  ⟨rfl, rfl⟩

/-- Loading a file does not panic, and what it returns is a consistent identity with the number
in the file. -/
structure LoadsConsistently [Sha3] [JsonText] (content : String) (json : Json) : Prop where
  noPanic : NoPanic (NodeIdentity.loadFromFile (.ok content))
  nodeId : ∀ identity, NodeIdentity.loadFromFile (.ok content) = .ok identity →
    (json.get "node_id").asU64 = some identity.nodeId.toUInt64
  consistent : ∀ identity, NodeIdentity.loadFromFile (.ok content) = .ok identity →
    identity.Consistent

/-- The fields fit, and if all of them can be read, then the number has 16 bits, the public key is
that of the secret key, and the address is that of the public key. -/
structure WellFormed [Sha3] (json : Json) : Prop extends FieldsFit json where
  agree : ∀ n (s : Scalar) (Q : G2Point) bytes, (json.get "node_id").asU64 = some n →
    HexField json "secret_key" s.toBytes → HexField json "public_key" Q.toBytes →
      HexField json "address" bytes → n.toNat < 2 ^ 16 ∧ Q = s • G2Point.generator ∧
        bytes = (NodeAddress.fromPublicKey ⟨Q⟩).bytes

omit [Curve] in
/-- A number survives the cast to 16 bits just if it is below 2^16. -/
theorem toUInt64_toUInt16_iff {n : UInt64} : n.toUInt16.toUInt64 = n ↔ n.toNat < 2 ^ 16 := by
  rw [← UInt64.toNat_inj, UInt16.toNat_toUInt64, UInt64.toNat_toUInt16]
  constructor
  · intro h
    rw [← h]
    exact Nat.mod_lt _ (by decide)
  · exact Nat.mod_eq_of_lt

/-- A saved identity is loaded consistently exactly if it is consistent. -/
theorem loadsConsistently_toJson_iff [Sha3] [JsonText]
    (hparse : JsonText.fromStr content = .ok identity.toJson) :
    LoadsConsistently content identity.toJson ↔ identity.Consistent := by
  have hload := loadFromFile_toJson hparse
  constructor
  · intro h
    exact h.consistent identity hload
  · intro h
    refine ⟨?_, fun loaded hloaded => ?_, fun loaded hloaded => ?_⟩
    · rw [hload]
      exact noPanic_ok _
    · cases hload.symm.trans hloaded
      simp [NodeIdentity.toJson]
    · cases hload.symm.trans hloaded
      exact h

/-- A new identity that was saved is loaded consistently. -/
theorem loadsConsistently_new [Sha3] [JsonText] {nodeId : ParticipantId} {secret : Scalar}
    {companyName : Option String} {now : UInt64} (hparse : JsonText.fromStr content =
      .ok (NodeIdentity.new nodeId secret companyName now).toJson) :
    LoadsConsistently content (NodeIdentity.new nodeId secret companyName now).toJson :=
  (loadsConsistently_toJson_iff hparse).mpr (NodeIdentity.consistent_new _ _ _ _)

/-- **Loading an identity.** It ends in a consistent identity or in an error exactly if the file is
well formed: no check of the loader sees to it. -/
theorem loadsConsistently_iff [Sha3] [JsonText] (hparse : JsonText.fromStr content = .ok json) :
    LoadsConsistently content json ↔ WellFormed json := by
  constructor
  · rintro ⟨hpanic, hnodeId, hconsistent⟩
    have hfit : FieldsFit json := (noPanic_loadFromFile_iff hparse).mp hpanic
    refine ⟨hfit, fun n s Q bytes hn hsk hpk haddr => ?_⟩
    let identity : NodeIdentity :=
      { nodeId := n.toUInt16, secretKey := ⟨s⟩, publicKey := ⟨Q⟩
        address := ⟨bytes, hfit.address n s Q bytes hn hsk hpk haddr⟩
        companyName := (json.get "company_name").asStr
        createdAt := (json.get "created_at").asU64.getD 0 }
    have hload : NodeIdentity.loadFromFile (.ok content) = .ok identity :=
      (loadFromFile_eq_ok_iff hparse).mpr ⟨⟨n, hn, rfl⟩, hsk, hpk, haddr, rfl, rfl⟩
    obtain ⟨hpublic, haddress⟩ := hconsistent identity hload
    have hsame : n.toUInt16.toUInt64 = n :=
      (Option.some.inj (hn.symm.trans (hnodeId identity hload))).symm
    exact ⟨toUInt64_toUInt16_iff.mp hsame, congrArg Bls.PublicKey.point hpublic,
      congrArg NodeAddress.bytes haddress⟩
  · intro h
    have hagree {identity : NodeIdentity}
        (hload : NodeIdentity.loadFromFile (.ok content) = .ok identity) :
        ∃ n, (json.get "node_id").asU64 = some n ∧ n.toUInt16 = identity.nodeId ∧
          n.toNat < 2 ^ 16 ∧ identity.Consistent := by
      obtain ⟨⟨n, hn, hnodeId⟩, hsk, hpk, haddr, _, _⟩ := (loadFromFile_eq_ok_iff hparse).mp hload
      obtain ⟨hsmall, hpublic, haddress⟩ := h.agree n _ _ _ hn hsk hpk haddr
      exact ⟨n, hn, hnodeId, hsmall, congrArg Bls.PublicKey.mk hpublic,
        NodeAddress.ext haddress⟩
    refine ⟨(noPanic_loadFromFile_iff hparse).mpr h.toFieldsFit, fun identity hload => ?_,
      fun identity hload => ?_⟩
    · obtain ⟨n, hn, hnodeId, hsmall, _⟩ := hagree hload
      rw [hn, ← hnodeId, toUInt64_toUInt16_iff.mpr hsmall]
    · obtain ⟨_, _, _, _, hconsistent⟩ := hagree hload
      exact hconsistent

end Loading

/-- A parser that knows one text. -/
@[reducible] def oneText (text : String) (json : Json) : JsonText where
  fromStr content := if content = text then .ok json else .error "expected value"

/-- The identity of the node 7 with the secret key 5. -/
def savedIdentity : @NodeIdentity exponentCurve :=
  letI := exponentCurve
  letI := truncatingSha3
  NodeIdentity.new 7 (5 : ℕ) none 1700000000

/-- The text of its file. -/
def savedText : String :=
  letI := exponentCurve
  "\x7b\"node_id\":7,\"secret_key\":\"" ++
    ByteString.hexEncode savedIdentity.secretKey.secret.toBytes ++ "\",\"public_key\":\"" ++
    ByteString.hexEncode savedIdentity.publicKey.toBytes ++ "\",\"address\":\"" ++
    savedIdentity.address.toHex ++ "\",\"company_name\":null,\"created_at\":1700000000\x7d"

/-- The file of a new identity is well formed. -/
theorem wellFormed_savedIdentity :
    letI := exponentCurve
    letI := truncatingSha3
    WellFormed savedIdentity.toJson := by
  let := exponentCurve
  let := truncatingSha3
  let := oneText savedText savedIdentity.toJson
  have hparse : JsonText.fromStr savedText = .ok savedIdentity.toJson := if_pos rfl
  exact (loadsConsistently_iff hparse).mp (loadsConsistently_new hparse)

/-- A file whose secret key has no digits. -/
def emptySecret : Json := .object [("node_id", .number (.posInt 1)), ("secret_key", .string "")]

/-- An empty secret key makes the loader panic. -/
theorem empty_secret_panics :
    letI := exponentCurve
    letI := truncatingSha3
    letI := oneText "\x7b\"node_id\":1,\"secret_key\":\"\"\x7d" emptySecret
    ¬ LoadsConsistently "\x7b\"node_id\":1,\"secret_key\":\"\"\x7d" emptySecret := by
  let := exponentCurve
  let := truncatingSha3
  let := oneText "\x7b\"node_id\":1,\"secret_key\":\"\"\x7d" emptySecret
  intro h
  have hempty : HexField emptySecret "secret_key" [] := ⟨"", by simp [emptySecret], rfl⟩
  have hfit : FieldsFit emptySecret := (noPanic_loadFromFile_iff (if_pos rfl)).mp h.noPanic
  exact absurd (hfit.secretKey 1 [] (by simp [emptySecret]) hempty) (by decide)

end Sigimora.Mcp
