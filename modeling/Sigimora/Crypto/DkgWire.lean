import Sigimora.Crypto.Dkg
import Sigimora.Library.Reader

/-!
# Messages on the wire

The byte format of the messages of the key generation. The writer puts the type of a
message behind all of its ids. The reader takes the third byte for the type and then
reads at fixed positions, whatever the length of the input.
-/

namespace Sigimora

open Pedersen Reader

variable [Curve]

/-- The messages between the parties. -/
inductive DkgMessage
  | commit (sender : ParticipantId) (publicKey : G2Point) (pop : G1Point) (vssPublic : VssPublic)
  | share (sender recipient : ParticipantId) (encryptedShare : List UInt8)
  | complaint (sender against : ParticipantId)
  | ack (sender : ParticipantId)
  | disqualify (sender disqualified : ParticipantId)
  | qualReveal (sender : ParticipantId) (publicKey : G2Point)

/-! ## Writing -/

/-- The number of commitments and their encodings. -/
def serializeVssPublic (vss : VssPublic) : List UInt8 :=
  ByteString.littleEndian 4 vss.commitments.length ++ vss.commitments.flatMap G1Point.toBytes

namespace DkgMessage

/-- The bytes of a message. -/
def serialize : DkgMessage → Outcome CryptoError (List UInt8)
  | .commit sender publicKey pop vssPublic =>
    .ok (ByteString.littleEndian 2 sender.toNat ++ [1] ++ publicKey.toBytes ++ pop.toBytes ++
      serializeVssPublic vssPublic)
  | .share sender recipient encryptedShare =>
    .ok (ByteString.littleEndian 2 sender.toNat ++ ByteString.littleEndian 2 recipient.toNat ++
      [2] ++ ByteString.littleEndian 4 encryptedShare.length ++ encryptedShare)
  | .complaint sender against =>
    .ok (ByteString.littleEndian 2 sender.toNat ++ ByteString.littleEndian 2 against.toNat ++ [3])
  | .ack sender => .ok (ByteString.littleEndian 2 sender.toNat ++ [4])
  | .disqualify sender disqualified =>
    .ok (ByteString.littleEndian 2 sender.toNat ++
      ByteString.littleEndian 2 disqualified.toNat ++ [5])
  | .qualReveal sender publicKey =>
    .ok (ByteString.littleEndian 2 sender.toNat ++ [6] ++ publicKey.toBytes)

end DkgMessage

/-! ## Reading -/

/-- The `unwrap` of a decoded commitment. -/
def unwrapCommitment (bytes : List UInt8) : Outcome CryptoError G1Point :=
  match G1Point.fromBytes bytes with
  | .ok c => .ok c
  | .error _ => Outcome.panic "called `Result::unwrap()` on an `Err` value: InvalidG1Point"

/-- The loop that reads `count` commitments, from the one with number `i` on. -/
def readCommitments (data : List UInt8) : ℕ → ℕ → Outcome CryptoError (List G1Point)
  | 0, _ => .ok []
  | count + 1, i => do
    let bytes ← slice data (4 + i * 48) (4 + (i + 1) * 48)
    let c ← unwrapCommitment bytes
    let rest ← readCommitments data count (i + 1)
    return c :: rest

/-- The commitments of a dealer. -/
def deserializeVssPublic (data : List UInt8) : Outcome CryptoError VssPublic := do
  let n ← readU32 data 0
  let commitments ← readCommitments data n 0
  return { commitments }

namespace DkgMessage

/-- Read a public key of a message. -/
def readPublicKey (data : List UInt8) : Outcome CryptoError G2Point := do
  let pkBytes ← slice data 3 99
  Outcome.mapErr (fun _ => .invalidParameter "invalid pk") (G2Point.fromBytes pkBytes)

/-- A message of type 1. -/
def deserializeCommit (data : List UInt8) : Outcome CryptoError DkgMessage := do
  let sender ← readU16 data 0
  let publicKey ← readPublicKey data
  let popBytes ← slice data 99 147
  let pop ← Outcome.mapErr (fun _ => .invalidParameter "invalid pop") (G1Point.fromBytes popBytes)
  let vssBytes ← sliceFrom data 147
  let vssPublic ← deserializeVssPublic vssBytes
  return .commit sender publicKey pop vssPublic

/-- A message of type 2. -/
def deserializeShare (data : List UInt8) : Outcome CryptoError DkgMessage := do
  let sender ← readU16 data 0
  let recipient ← readU16 data 2
  let len ← readU32 data 4
  let encrypted ← slice data 8 (8 + len)
  return .share sender recipient encrypted

/-- A message with two ids, which is of type 3 or 5. -/
def deserializeIds (message : ParticipantId → ParticipantId → DkgMessage) (data : List UInt8) :
    Outcome CryptoError DkgMessage := do
  let sender ← readU16 data 0
  let other ← readU16 data 2
  return message sender other

/-- A message of type 4. -/
def deserializeAck (data : List UInt8) : Outcome CryptoError DkgMessage := do
  let sender ← readU16 data 0
  return .ack sender

/-- A message of type 6. -/
def deserializeQualReveal (data : List UInt8) : Outcome CryptoError DkgMessage := do
  let sender ← readU16 data 0
  let publicKey ← readPublicKey data
  return .qualReveal sender publicKey

/-- The message that the bytes stand for. -/
def deserialize (data : List UInt8) : Outcome CryptoError DkgMessage :=
  if data.length < 3 then Outcome.fail (.invalidParameter "invalid message")
  else do
    let msgType ← Outcome.index data 2
    if msgType = 1 then deserializeCommit data
    else if msgType = 2 then deserializeShare data
    else if msgType = 3 then deserializeIds .complaint data
    else if msgType = 4 then deserializeAck data
    else if msgType = 5 then deserializeIds .disqualify data
    else if msgType = 6 then deserializeQualReveal data
    else Outcome.fail (.invalidParameter "unknown message type")

/-! ## The branch of a message -/

/-- The type of a message. -/
def msgType : DkgMessage → UInt8
  | .commit .. => 1
  | .share .. => 2
  | .complaint .. => 3
  | .ack .. => 4
  | .disqualify .. => 5
  | .qualReveal .. => 6

/-- The branch that reads messages of this type. -/
def branch : DkgMessage → List UInt8 → Outcome CryptoError DkgMessage
  | .commit .. => deserializeCommit
  | .share .. => deserializeShare
  | .complaint .. => deserializeIds .complaint
  | .ack .. => deserializeAck
  | .disqualify .. => deserializeIds .disqualify
  | .qualReveal .. => deserializeQualReveal

variable {data : List UInt8} {message : DkgMessage}

theorem branch_of_deserializeCommit (h : deserializeCommit data = .ok message) :
    message.msgType = 1 ∧ message.branch = deserializeCommit := by
  simp only [deserializeCommit, Outcome.bind_eq_ok, Outcome.pure_eq_ok, Except.ok.injEq] at h
  obtain ⟨_, _, _, _, _, _, _, _, _, _, _, _, rfl⟩ := h
  exact ⟨rfl, rfl⟩

theorem branch_of_deserializeShare (h : deserializeShare data = .ok message) :
    message.msgType = 2 ∧ message.branch = deserializeShare := by
  simp only [deserializeShare, Outcome.bind_eq_ok, Outcome.pure_eq_ok, Except.ok.injEq] at h
  obtain ⟨_, _, _, _, _, _, _, _, rfl⟩ := h
  exact ⟨rfl, rfl⟩

theorem branch_of_deserializeAck (h : deserializeAck data = .ok message) :
    message.msgType = 4 ∧ message.branch = deserializeAck := by
  simp only [deserializeAck, Outcome.bind_eq_ok, Outcome.pure_eq_ok, Except.ok.injEq] at h
  obtain ⟨_, _, rfl⟩ := h
  exact ⟨rfl, rfl⟩

theorem branch_of_deserializeQualReveal (h : deserializeQualReveal data = .ok message) :
    message.msgType = 6 ∧ message.branch = deserializeQualReveal := by
  simp only [deserializeQualReveal, Outcome.bind_eq_ok, Outcome.pure_eq_ok, Except.ok.injEq] at h
  obtain ⟨_, _, _, _, rfl⟩ := h
  exact ⟨rfl, rfl⟩

/-- What a message with two ids is read as. -/
theorem deserializeIds_eq_ok_iff {make : ParticipantId → ParticipantId → DkgMessage} :
    deserializeIds make data = .ok message ↔ ∃ sender other, readU16 data 0 =
      (.ok sender : Outcome CryptoError _) ∧ readU16 data 2 = (.ok other : Outcome CryptoError _) ∧
        make sender other = message := by
  simp only [deserializeIds, Outcome.bind_eq_ok, Outcome.pure_eq_ok, Except.ok.injEq]
  constructor
  · rintro ⟨sender, hsender, other, hother, hmessage⟩
    exact ⟨sender, other, hsender, hother, hmessage⟩
  · rintro ⟨sender, other, hsender, hother, hmessage⟩
    exact ⟨sender, hsender, other, hother, hmessage⟩

/-- The third byte decides how a message is read. -/
theorem deserialize_eq_ok_iff :
    deserialize data = .ok message ↔
      data[2]? = some message.msgType ∧ message.branch data = .ok message := by
  unfold deserialize
  by_cases hshort : data.length < 3
  · rw [if_pos hshort, List.getElem?_eq_none (by omega)]
    exact iff_of_false nofun fun h => nomatch h.1
  have htype := List.getElem?_eq_getElem (show 2 < data.length by omega)
  rw [if_neg hshort, Outcome.index_eq_ok.mpr htype, Outcome.ok_bind, htype, Option.some.injEq]
  generalize data[2] = msgType
  constructor
  · intro h
    split_ifs at h with hcommit hshare hcomplaint hack hdisqualify hqualReveal
    · obtain ⟨htag, hbranch⟩ := branch_of_deserializeCommit h
      exact ⟨hcommit.trans htag.symm, by rw [hbranch, h]⟩
    · obtain ⟨htag, hbranch⟩ := branch_of_deserializeShare h
      exact ⟨hshare.trans htag.symm, by rw [hbranch, h]⟩
    · obtain ⟨_, _, _, _, rfl⟩ := deserializeIds_eq_ok_iff.mp h
      exact ⟨hcomplaint, h⟩
    · obtain ⟨htag, hbranch⟩ := branch_of_deserializeAck h
      exact ⟨hack.trans htag.symm, by rw [hbranch, h]⟩
    · obtain ⟨_, _, _, _, rfl⟩ := deserializeIds_eq_ok_iff.mp h
      exact ⟨hdisqualify, h⟩
    · obtain ⟨htag, hbranch⟩ := branch_of_deserializeQualReveal h
      exact ⟨hqualReveal.trans htag.symm, by rw [hbranch, h]⟩
    · cases h
  · rintro ⟨rfl, hread⟩
    cases message with
    | commit => exact hread
    | share => exact hread
    | complaint => exact hread
    | ack => exact hread
    | disqualify => exact hread
    | qualReveal => exact hread

end DkgMessage

end Sigimora
